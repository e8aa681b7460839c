import AioPika.Foundation.Tally
import AioPika.Message.Channels
import AioPika.Queue.Iterator
import Mathlib.Algebra.Order.BigOperators.Group.List
import Mathlib.Algebra.Order.Group.Nat

/-! # Iterators of a broker

Any number of `QueueIterator`s consume the queues of one broker on plain channels,
whose server supports `basic.nack`. `__anext__` hands their messages to users, who
settle them; `close()` nacks what it finds in the buffer. What is done with a
message on one side is felt on the other.
-/

namespace AioPika.Feeds

open Deliveries (Channel Handle Verb Settled Clean)
open Message (Server ChannelAction Incoming channelStep)
open QueueIterator (State)

/-- A message that an iterator got: which delivery of its channel it is, and its body. -/
structure Got (α : Type) where
  handle : ℕ
  body : α
  deriving DecidableEq, Repr

/-- An iterator, with the underlay channel on which it consumes. -/
structure Feed (α : Type) where
  channel : ℕ
  epoch : ℕ
  queue : String
  noAck : Bool
  state : State
  got : List (Got α)

structure System (α : Type) where
  server : Server α
  feeds : List (Feed α)

inductive Action (α : Type) where
  /-- What happens at the broker, and what users do with their messages. -/
  | server (e : ChannelAction α)
  /-- `queue.iterator(no_ack=no_ack)` -/
  | iterator (channel : ℕ) (queue : String) (noAck : Bool)
  /-- A consumer of an iterator gets message `n` of its queue. -/
  | deliver (feed consumer n : ℕ)
  | iterate (feed : ℕ) (a : QueueIterator.Action)

variable {α : Type}

/-- An iterator sees whether its underlay channel is lost. -/
def Feed.follow (b : Server α) (f : Feed α) : Feed α :=
  if ∃ c ∈ b.channels[f.channel]?, c.epoch = f.epoch then f
  else { f with state := { f.state with channelClosed := true } }

/-- The message that `close()` has nacked in a step. -/
def nackedNow (s t : State) : Option ℕ := (t.nacked.drop s.nacked.length).head?

namespace System

variable (s : System α)

def serve (e : ChannelAction α) : Option (System α) := do
  let server ← channelStep true s.server e
  return ⟨server, s.feeds.map (Feed.follow server)⟩

def step : Action α → Option (System α)
  | .server e => s.serve e
  | .iterator p queue noAck => do
    let c ← s.server.channels[p]?
    return { s with feeds := s.feeds ++ [⟨p, c.epoch, queue, noAck, QueueIterator.fresh, []⟩] }
  | .deliver k consumer n => do
    let f ← s.feeds[k]?
    let c ← s.server.channels[f.channel]?
    let ms ← s.server.queues.get? f.queue
    let m ← ms[n]?
    if f.state.channelClosed then none
    else
      let state ← QueueIterator.step f.noAck f.state (.deliver consumer)
      let t ← s.serve (.deliver f.channel f.queue n f.noAck)
      let got := f.got ++ [⟨c.handles.length, m.item⟩]
      return { t with feeds := t.feeds.set k { f with state := state, got := got } }
  | .iterate _ (.deliver _) | .iterate _ .channelClosed => none
  | .iterate k a => do
    let f ← s.feeds[k]?
    let state ← QueueIterator.step f.noAck f.state a
    let t : System α := { s with feeds := s.feeds.set k { f with state := state } }
    match nackedNow f.state state with
    | none => return t
    | some m =>
      let got ← f.got[m]?
      t.serve (.act f.channel got.handle (.call (.nack false true)))

end System

def fresh (n : ℕ) : System α := ⟨Deliveries.fresh n, []⟩

/-- The message that is a delivery of a channel, if an iterator got it, was handed to a user. -/
def Feed.Handed (f : Feed α) (p i : ℕ) : Prop := f.channel = p →
  ∀ m < f.got.length, f.got[m]?.map Got.handle = some i → .returned m ∈ f.state.calls

instance (f : Feed α) (p i : ℕ) : Decidable (f.Handed p i) :=
  inferInstanceAs (Decidable (f.channel = p →
    ∀ m < f.got.length, f.got[m]?.map Got.handle = some i → .returned m ∈ f.state.calls))

def Ends : Message.Action → Prop
  | .sent _ => True
  | .call _ | .exit _ _ | .failed _ | .channelClosed => False

instance : DecidablePred Ends
  | .sent _ => .isTrue trivial
  | .call _ | .exit _ _ | .failed _ | .channelClosed => .isFalse id

/-- Users settle what was handed to them, each message by one task alone. -/
def Careful (s : System α) : Action α → Prop
  | .server (.act p i a) => Message.Politely s.server (.act p i a) ∧
      (Ends a ∨ ∀ f ∈ s.feeds, f.Handed p i)
  | _ => True

instance (s : System α) : DecidablePred (Careful s)
  | .server (.act p i a) => inferInstanceAs (Decidable (Message.Politely s.server (.act p i a) ∧
      (Ends a ∨ ∀ f ∈ s.feeds, f.Handed p i)))
  | .server (.declareQueue _) | .server (.deleteQueue _) | .server (.publish _ _)
  | .server (.expire _ _) | .server (.deliver _ _ _ _) | .server (.receive _) | .server (.lost _)
  | .iterator _ _ _ | .deliver _ _ _ | .iterate _ _ => .isTrue trivial

section Iterators

open QueueIterator (Pc)

variable {noAck : Bool} {s t : State} {a : QueueIterator.Action} {i m : ℕ} {pc pc' : Pc}

/-- The messages that have not been taken from the iterator. -/
def Waits (s : State) (m : ℕ) : Prop := m ∈ s.inFlight ∨ m ∈ s.queue

/-- Every message is in one place at most: on its way, in the buffer, with one user, or nacked. -/
def Held (s : State) : Prop := ∀ m, s.inFlight.count m + s.queue.count m +
  Custody.count Pc.holds s.calls m + s.nacked.count m ≤ (List.range s.delivered.length).count m

/-- A step brings no messages. -/
structure Passes (s t : State) : Prop where
  channelClosed : t.channelClosed = s.channelClosed
  delivered : t.delivered = s.delivered
  waits : ∀ m, t.inFlight.count m + t.queue.count m ≤ s.inFlight.count m + s.queue.count m
  held : ∀ m, t.inFlight.count m + t.queue.count m + Custody.count Pc.holds t.calls m +
    t.nacked.count m ≤ s.inFlight.count m + s.queue.count m + Custody.count Pc.holds s.calls m +
      s.nacked.count m

/-- `close()` nacks the first message of the buffer. -/
structure Nacks (noAck : Bool) (s t : State) (m : ℕ) : Prop where
  nacked : t.nacked = s.nacked ++ [m]
  queue : s.queue = m :: t.queue
  inFlight : t.inFlight = s.inFlight
  noAck : noAck = false
  channelClosed : s.channelClosed = false

theorem Passes.start (hcalls : t.calls = s.calls ++ [pc]) (hp : pc.holds = [])
    (hc : t.channelClosed = s.channelClosed) (hd : t.delivered = s.delivered)
    (hf : t.inFlight = s.inFlight) (hq : t.queue = s.queue) (hn : t.nacked = s.nacked) :
    Passes s t := by
  refine ⟨hc, hd, fun m => ?_, fun m => ?_⟩
  · exact Nat.le_of_eq (by rw [hf, hq])
  · rw [hf, hq, hn, hcalls, Custody.count_append, Custody.count_cons, Custody.count_nil, hp,
      List.count_nil]
    omega

theorem Passes.move (hi : s.calls[i]? = some pc) (hcalls : t.calls = s.calls.set i pc')
    (hc : t.channelClosed = s.channelClosed) (hd : t.delivered = s.delivered)
    (hf : t.inFlight = s.inFlight) (hq : ∀ m, t.queue.count m ≤ s.queue.count m)
    (hh : ∀ m, t.queue.count m + pc'.holds.count m + t.nacked.count m ≤
      s.queue.count m + pc.holds.count m + s.nacked.count m) : Passes s t := by
  refine ⟨hc, hd, fun m => ?_, fun m => ?_⟩
  · rw [hf]
    exact Nat.add_le_add_left (hq m) _
  · have hset : Custody.count Pc.holds (s.calls.set i pc') m + pc.holds.count m =
        Custody.count Pc.holds s.calls m + pc'.holds.count m := Custody.count_set hi
    have hm := hh m
    rw [hf, hcalls]
    omega

theorem Passes.trans {u : State} (h : Passes s t) (h' : Passes t u) : Passes s u where
  channelClosed := h'.channelClosed.trans h.channelClosed
  delivered := h'.delivered.trans h.delivered
  waits m := Nat.le_trans (h'.waits m) (h.waits m)
  held m := Nat.le_trans (h'.held m) (h.held m)

theorem Passes.refl : Passes s s :=
  ⟨rfl, rfl, fun _ => Nat.le_refl _, fun _ => Nat.le_refl _⟩

theorem passes_consume {next : Bool} : Passes s (s.consume next) :=
  .start rfl rfl rfl rfl rfl rfl rfl

theorem passes_enter {next : Bool} : Passes s (s.enter next) := by
  unfold State.enter
  split
  · exact passes_consume
  · cases next with
    | true => exact .start rfl rfl rfl rfl rfl rfl rfl
    | false => exact .start rfl rfl rfl rfl rfl rfl rfl

theorem passes_close : Passes s s.close := by
  unfold State.close
  split
  · exact .refl
  · split
    · exact .refl
    · split
      · exact .start rfl rfl rfl rfl rfl rfl rfl
      · exact .start rfl rfl rfl rfl rfl rfl rfl

theorem passes_drain {c : ℕ} (hi : s.calls[i]? = some pc) (hp : pc.holds = []) :
    Passes s (s.drain noAck i c) ∧ ((s.drain noAck i c).nacked = s.nacked ∨
      ∃ m, Nacks noAck s (s.drain noAck i c) m) := by
  unfold State.drain
  split
  · refine ⟨.move hi rfl rfl rfl rfl (fun m => Nat.le_refl _) fun m => ?_, Or.inl rfl⟩
    rw [hp]
    exact Nat.le_refl _
  · rename_i message queue hq
    split
    · refine ⟨.move hi rfl rfl rfl rfl (fun m => Nat.zero_le _) fun m => ?_, Or.inl rfl⟩
      simp only [State.setPc_queue, State.setPc_nacked, Pc.holds, List.count_nil]
      omega
    · rename_i hn
      rw [not_or] at hn
      refine ⟨.move hi rfl rfl rfl rfl (fun m => ?_) fun m => ?_,
        Or.inr ⟨message, rfl, hq, rfl, by simpa using hn.2, by simpa using hn.1⟩⟩
      · rw [hq]
        exact List.count_le_count_cons
      · rw [hq]
        simp only [State.setPc_queue, State.setPc_nacked, Pc.holds, List.count_append,
          List.count_cons, List.count_nil]
        omega

/-- What a step of an iterator does with its messages, apart from a delivery. -/
theorem passes_step (hd : ∀ c, a ≠ .deliver c) (ha : a ≠ .channelClosed)
    (hs : QueueIterator.step noAck s a = some t) :
    Passes s t ∧ (t.nacked = s.nacked ∨ ∃ m, Nacks noAck s t m) := by
  have hsame : ∀ {u : State}, u.nacked = s.nacked → Passes s u →
      Passes s u ∧ (u.nacked = s.nacked ∨ ∃ m, Nacks noAck s u m) := fun hn hp => ⟨hp, Or.inl hn⟩
  have hclose : ∀ u : State, u.close.nacked = u.nacked := by
    intro u
    unfold State.close
    split
    · rfl
    · split
      · rfl
      · split <;> rfl
  have hset : ∀ {i : ℕ} {pc pc' : Pc}, s.calls[i]? = some pc → pc'.holds = [] →
      Passes s (s.setPc i pc') := fun hi hp =>
    .move hi rfl rfl rfl rfl (fun m => Nat.le_refl _) fun m => by simp [hp]
  cases QueueIterator.step_cases hs with
  | next | enter =>
    refine hsame ?_ passes_enter
    unfold State.enter
    split <;> rfl
  | consume => exact hsame rfl passes_consume
  | @consumed i c next hi =>
    refine hsame rfl (.move hi rfl rfl rfl rfl (fun m => Nat.le_refl _) fun m => ?_)
    cases next <;> exact Nat.le_refl _
  | deliver => exact absurd rfl (hd _)
  | @onMessage m hm =>
    refine hsame rfl ⟨rfl, rfl, fun x => ?_, fun x => ?_⟩
    all_goals
      have hperm := (List.perm_cons_erase hm).count_eq x
      simp only [List.count_append, List.count_cons, List.count_nil] at hperm ⊢
      omega
  | @got i m queue hi hq =>
    refine hsame rfl (.move hi rfl rfl rfl rfl (fun x => ?_) fun x => ?_)
    · rw [hq]
      exact List.count_le_count_cons
    · rw [hq]
      simp only [State.setPc_queue, State.setPc_nacked, Pc.holds, List.count_cons, List.count_nil]
      omega
  | timedOut hi => exact hsame rfl (hset hi rfl)
  | @cancelled i hi => exact hsame (hclose _) ((hset hi rfl).trans passes_close)
  | interrupted hi => exact hsame rfl (hset hi rfl)
  | close => exact hsame (hclose s) passes_close
  | cancelOk => exact hsame rfl ⟨rfl, rfl, fun _ => Nat.le_refl _, fun _ => Nat.le_refl _⟩
  | resumed hi => exact passes_drain hi rfl
  | sent hi => exact passes_drain hi rfl
  | channelClosed => exact absurd rfl ha

theorem Held.passes (h : Held s) (hp : Passes s t) : Held t := by
  intro m
  rw [hp.delivered]
  exact Nat.le_trans (hp.held m) (h m)

theorem waits_iff : Waits s m ↔ 0 < s.inFlight.count m + s.queue.count m := by
  rw [Waits, Nat.add_pos_iff_pos_or_pos, List.count_pos_iff, List.count_pos_iff]

theorem Passes.waiting (hp : Passes s t) (hw : Waits t m) : Waits s m :=
  waits_iff.mpr (Nat.lt_of_lt_of_le (waits_iff.mp hw) (hp.waits m))

theorem Held.once (h : Held s) (m : ℕ) : s.inFlight.count m + s.queue.count m +
    Custody.count Pc.holds s.calls m + s.nacked.count m ≤ 1 :=
  Nat.le_trans (h m) (List.nodup_iff_count_le_one.mp List.nodup_range m)

theorem held_of_returned (hm : .returned m ∈ s.calls) : 0 < Custody.count Pc.holds s.calls m := by
  have hself : (Pc.holds (.returned m)).count m = 1 := List.count_singleton_self
  have hcount : (Pc.holds (.returned m)).count m ≤ Custody.count Pc.holds s.calls m :=
    Custody.count_le_of_mem hm
  omega

theorem Held.not_waits (h : Held s) (hm : .returned m ∈ s.calls) : ¬ Waits s m := by
  intro hw
  have hwaits := waits_iff.mp hw
  have hheld := held_of_returned hm
  have hone := h.once m
  omega

theorem Held.not_nacked (h : Held s) (hm : .returned m ∈ s.calls) : m ∉ s.nacked := by
  intro hn
  have hnacked := List.count_pos_iff.mpr hn
  have hheld := held_of_returned hm
  have hone := h.once m
  omega

theorem Held.nacked_lt (h : Held s) (hn : m ∈ s.nacked) : m < s.delivered.length := by
  have hm := h m
  have hn := List.count_pos_iff.mpr hn
  exact List.mem_range.mp (List.count_pos_iff.mp (by omega))

theorem Held.waits_not_nacked (h : Held s) (hw : Waits s m) : m ∉ s.nacked := by
  intro hn
  have hnacked := List.count_pos_iff.mpr hn
  have hwaits := waits_iff.mp hw
  have hone := h.once m
  omega

theorem Held.nacked (h : Held s) (hn : Nacks noAck s t m) : ¬ Waits t m := by
  intro hw
  have hwaits := waits_iff.mp hw
  have hone := h.once m
  rw [hn.queue, List.count_cons_self] at hone
  rw [hn.inFlight] at hwaits
  omega

structure Delivers (s t : State) : Prop where
  delivered : ∃ c, t.delivered = s.delivered ++ [c]
  inFlight : t.inFlight = s.inFlight ++ [s.delivered.length]
  queue : t.queue = s.queue
  calls : t.calls = s.calls
  nacked : t.nacked = s.nacked
  channelClosed : t.channelClosed = s.channelClosed

theorem delivers {c : ℕ} (hs : QueueIterator.step noAck s (.deliver c) = some t) :
    Delivers s t := by
  cases QueueIterator.step_cases hs with
  | deliver => exact ⟨⟨c, rfl⟩, rfl, rfl, rfl, rfl, rfl⟩

theorem Held.deliver (h : Held s) (hd : Delivers s t) : Held t := by
  intro m
  have hm := h m
  obtain ⟨c, hc⟩ := hd.delivered
  rw [hc, hd.inFlight, hd.queue, hd.calls, hd.nacked, List.length_append, List.length_singleton,
    List.range_succ, List.count_append, List.count_append]
  omega

theorem nackedNow_same (h : t.nacked = s.nacked) : nackedNow s t = none := by
  simp [nackedNow, h]

theorem nackedNow_append (h : t.nacked = s.nacked ++ [m]) : nackedNow s t = some m := by
  simp [nackedNow, h]

end Iterators

section Steps

variable {s t : System α} {a : Action α} {f : Feed α} {b b' : Server α} {e : ChannelAction α}
  {k : ℕ}

inductive Step (s : System α) : Action α → System α → Prop
  | server {e : ChannelAction α} {t : System α} (hs : s.serve e = some t) : Step s (.server e) t
  | iterator {p : ℕ} {queue : String} {noAck : Bool} {c : Channel String α Incoming}
      (hp : s.server.channels[p]? = some c) :
      Step s (.iterator p queue noAck) { s with
        feeds := s.feeds ++ [⟨p, c.epoch, queue, noAck, QueueIterator.fresh, []⟩] }
  | deliver {k consumer n : ℕ} {f : Feed α} {c : Channel String α Incoming}
      {ms : List (Deliveries.Ready α)} {m : Deliveries.Ready α} {state : State} {t : System α}
      (hf : s.feeds[k]? = some f) (hc : s.server.channels[f.channel]? = some c)
      (hq : s.server.queues.get? f.queue = some ms) (hm : ms[n]? = some m)
      (ho : f.state.channelClosed = false)
      (hst : QueueIterator.step f.noAck f.state (.deliver consumer) = some state)
      (hs : s.serve (.deliver f.channel f.queue n f.noAck) = some t) :
      Step s (.deliver k consumer n) { t with
        feeds := t.feeds.set k
          { f with state := state, got := f.got ++ [⟨c.handles.length, m.item⟩] } }
  | pass {k : ℕ} {a : QueueIterator.Action} {f : Feed α} {state : State}
      (hf : s.feeds[k]? = some f) (ha : a ≠ .channelClosed)
      (hst : QueueIterator.step f.noAck f.state a = some state) (hp : Passes f.state state)
      (hn : state.nacked = f.state.nacked) :
      Step s (.iterate k a) { s with feeds := s.feeds.set k { f with state := state } }
  | nack {k m : ℕ} {a : QueueIterator.Action} {f : Feed α} {state : State} {got : Got α}
      {t : System α} (hf : s.feeds[k]? = some f) (ha : a ≠ .channelClosed)
      (hst : QueueIterator.step f.noAck f.state a = some state) (hp : Passes f.state state)
      (hn : Nacks f.noAck f.state state m) (hg : f.got[m]? = some got)
      (hs : System.serve { s with feeds := s.feeds.set k { f with state := state } }
        (.act f.channel got.handle (.call (.nack false true))) = some t) :
      Step s (.iterate k a) t

theorem step_cases (h : s.step a = some t) : Step s a t := by
  cases a with
  | server e => exact .server h
  | iterator p queue noAck =>
    simp only [System.step, Option.bind_eq_bind, Option.bind_eq_some_iff, Option.pure_def,
      Option.some.injEq] at h
    obtain ⟨c, hp, rfl⟩ := h
    exact .iterator hp
  | deliver k consumer n =>
    simp only [System.step, Option.bind_eq_bind, Option.bind_eq_some_iff, Option.pure_def] at h
    obtain ⟨f, hf, c, hc, ms, hq, m, hm, h⟩ := h
    split at h
    · cases h
    · rename_i ho
      simp only [Option.bind_eq_some_iff, Option.some.injEq] at h
      obtain ⟨state, hst, t, hs, rfl⟩ := h
      exact .deliver hf hc hq hm (by simpa using ho) hst hs
  | iterate k a =>
    have hd : ∀ c, a ≠ .deliver c := by
      rintro c rfl
      cases h
    have ha : a ≠ .channelClosed := by
      rintro rfl
      cases h
    have hstep : s.step (.iterate k a) = (do
        let f ← s.feeds[k]?
        let state ← QueueIterator.step f.noAck f.state a
        let t : System α := { s with feeds := s.feeds.set k { f with state := state } }
        match nackedNow f.state state with
        | none => return t
        | some m =>
          let got ← f.got[m]?
          t.serve (.act f.channel got.handle (.call (.nack false true)))) := by
      cases a with
      | deliver c => exact absurd rfl (hd c)
      | channelClosed => exact absurd rfl ha
      | _ => rfl
    rw [hstep] at h
    simp only [Option.bind_eq_bind, Option.bind_eq_some_iff, Option.pure_def] at h
    obtain ⟨f, hf, state, hst, h⟩ := h
    obtain ⟨hp, hn | ⟨m, hn⟩⟩ := passes_step hd ha hst
    · rw [nackedNow_same hn] at h
      obtain rfl := Option.some.inj h
      exact .pass hf ha hst hp hn
    · rw [nackedNow_append hn.nacked] at h
      obtain ⟨got, hg, hs⟩ := Option.bind_eq_some_iff.mp h
      exact .nack hf ha hst hp hn hg hs

theorem serve_cases (h : s.serve e = some t) : ∃ b, channelStep true s.server e = some b ∧
    t = ⟨b, s.feeds.map (Feed.follow b)⟩ := by
  simp only [System.serve, Option.bind_eq_bind, Option.bind_eq_some_iff, Option.pure_def,
    Option.some.injEq] at h
  obtain ⟨b, hb, rfl⟩ := h
  exact ⟨b, hb, rfl⟩

@[simp] theorem follow_got : (f.follow b).got = f.got := by
  unfold Feed.follow
  split <;> rfl

@[simp] theorem follow_channel : (f.follow b).channel = f.channel := by
  unfold Feed.follow
  split <;> rfl

/-- The iterator knows its messages. -/
structure Feed.Orderly (f : Feed α) : Prop where
  length : f.got.length = f.state.delivered.length
  held : Held f.state

theorem Feed.Orderly.follow (h : f.Orderly) : (f.follow b).Orderly := by
  unfold Feed.follow
  split
  · exact h
  · exact ⟨h.length, h.held⟩

theorem Feed.Orderly.pass (h : f.Orderly) {state : State} (hp : Passes f.state state) :
    Feed.Orderly { f with state := state } :=
  ⟨h.length.trans (congrArg List.length hp.delivered.symm), h.held.passes hp⟩

theorem Feed.Orderly.deliver (h : f.Orderly) {state : State} {got : Got α}
    (hd : Delivers f.state state) :
    Feed.Orderly { f with state := state, got := f.got ++ [got] } := by
  obtain ⟨c, hc⟩ := hd.delivered
  refine ⟨?_, h.held.deliver hd⟩
  rw [hc, List.length_append, List.length_append, h.length]
  rfl

/-- The deliveries that an iterator got are its own, and wait as they came, as long as the underlay
channel lasts. -/
structure Feed.Sound (b : Server α) (f : Feed α) : Prop where
  orderly : f.Orderly
  apart : ∀ (m m' : ℕ) (got got' : Got α), f.got[m]? = some got → f.got[m']? = some got' →
    got.handle = got'.handle → m = m'
  current : f.state.channelClosed = false → ∃ c ∈ b.channels[f.channel]?, c.epoch = f.epoch
  known : ∀ got ∈ f.got, ∃ c ∈ b.channels[f.channel]?, ∃ h ∈ c.handles[got.handle]?,
    h.epoch = f.epoch ∧ h.auto = f.noAck ∧ h.item = got.body ∧ h.state.message.basicNack = true
  untouched : f.state.channelClosed = false → ∀ (m : ℕ) (got : Got α), f.got[m]? = some got →
    Waits f.state m → ∀ c ∈ b.channels[f.channel]?, ∀ h ∈ c.handles[got.handle]?,
      h.state.state = Message.fresh h.state.message

/-- What is done with a message is the end of an await, or the message does not wait. -/
def Feed.Spares (f : Feed α) (e : ChannelAction α) : Prop := ∀ (m : ℕ) (got : Got α) (a),
  f.got[m]? = some got → e = .act f.channel got.handle a → Ends a ∨ ¬ Waits f.state m

theorem Feed.Sound.stays (hf : f.Sound b) (hs : channelStep true b e = some b')
    (hc : f.state.channelClosed = false → ∃ c ∈ b'.channels[f.channel]?, c.epoch = f.epoch)
    (he : f.Spares e) : f.Sound b' where
  orderly := hf.orderly
  apart := hf.apart
  current := hc
  known got hg := by
    obtain ⟨c, hc, h, hh, hrest⟩ := hf.known got hg
    obtain ⟨c', hc', hst⟩ := Message.channelStep_stays hs hc
    obtain ⟨h', hh', hepoch, hauto, hitem, -, hmessage, -⟩ := hst.handles _ h hh
    rw [← hepoch, ← hauto, ← hitem, ← hmessage] at hrest
    exact ⟨c', hc', h', hh', hrest⟩
  untouched ho m got hg hw c' hc' h' hh' := by
    obtain ⟨c, hc₀, hce⟩ := hf.current ho
    obtain ⟨c₁, hc₁, hce'⟩ := hc ho
    obtain ⟨c₂, hc₂, hst⟩ := Message.channelStep_stays hs hc₀
    obtain rfl := Option.some.inj (Option.mem_def.mp hc' ▸ hc₁)
    obtain rfl := Option.some.inj (hc₂.symm.trans hc₁)
    obtain ⟨d, hd, h, hh, -⟩ := hf.known got (List.mem_of_getElem? hg)
    obtain rfl := Option.some.inj (Option.mem_def.mp hd ▸ hc₀)
    obtain ⟨h₁, hh₁, -, -, -, -, -, hsame⟩ := hst.handles _ h hh
    obtain rfl := Option.some.inj (hh₁.symm.trans hh')
    have hfresh := hf.untouched ho m got hg hw _ hc₀ h hh
    have hne : ∀ a, e ≠ .act f.channel got.handle a := by
      rintro a rfl
      rcases he m got a hg rfl with hends | hnot
      · obtain ⟨x, y, u, -, hx, hy, hu, -⟩ := Message.act_cases hs
        obtain rfl := Option.some.inj (hx.symm.trans hc₀)
        obtain rfl := Option.some.inj (hy.symm.trans hh)
        rw [hfresh] at hu
        cases a with
        | sent i => simp [Message.step, Message.fresh] at hu
        | _ => exact hends
      · exact hnot hw
    rw [hsame (hce'.trans hce.symm) hne]
    exact hfresh

theorem Feed.Sound.follow (hf : f.Sound b) (hs : channelStep true b e = some b')
    (he : f.Spares e) : (f.follow b').Sound b' := by
  unfold Feed.follow
  split
  · rename_i hc
    exact hf.stays hs (fun _ => hc) he
  · have hclosed : Feed.Sound b { f with state := { f.state with channelClosed := true } } :=
      ⟨⟨hf.orderly.length, hf.orderly.held⟩, hf.apart, nofun, hf.known, nofun⟩
    exact hclosed.stays hs nofun he

theorem Feed.Sound.pass {state : State} (hf : f.Sound b) (hp : Passes f.state state) :
    Feed.Sound b { f with state := state } where
  orderly := hf.orderly.pass hp
  apart := hf.apart
  current ho := hf.current (hp.channelClosed.symm.trans ho)
  known := hf.known
  untouched ho m got hg hw :=
    hf.untouched (hp.channelClosed.symm.trans ho) m got hg (hp.waiting hw)

/-- Every iterator knows its messages, and no message is with two iterators. -/
structure Sound (s : System α) : Prop where
  feeds : ∀ f ∈ s.feeds, f.Sound s.server
  apart : ∀ (j k : ℕ) (f g : Feed α), s.feeds[j]? = some f → s.feeds[k]? = some g →
    f.channel = g.channel → ∀ x ∈ f.got, ∀ y ∈ g.got, x.handle = y.handle → j = k

theorem fresh_sound {n : ℕ} : Sound (fresh n : System α) where
  feeds f hf := absurd hf List.not_mem_nil
  apart j k f g hf := by cases hf

theorem Sound.serve (h : Sound s) (hs : s.serve e = some t) (he : ∀ f ∈ s.feeds, f.Spares e) :
    Sound t := by
  obtain ⟨b, hb, rfl⟩ := serve_cases hs
  constructor
  · intro f hf
    obtain ⟨g, hg, rfl⟩ := List.mem_map.mp hf
    exact (h.feeds g hg).follow hb (he g hg)
  · intro j k f g hf hg hc x hx y hy hxy
    simp only [List.getElem?_map, Option.map_eq_some_iff] at hf hg
    obtain ⟨f, hf, rfl⟩ := hf
    obtain ⟨g, hg, rfl⟩ := hg
    rw [follow_got] at hx hy
    rw [follow_channel, follow_channel] at hc
    exact h.apart j k f g hf hg hc x hx y hy hxy

theorem Sound.set (h : Sound s) {g : Feed α} (hk : s.feeds[k]? = some f) (hg : g.Sound s.server)
    (hc : g.channel = f.channel) (hnew : ∀ x ∈ g.got, x ∈ f.got ∨
      ∀ f' ∈ s.feeds, f'.channel = f.channel → ∀ y ∈ f'.got, y.handle ≠ x.handle) :
    Sound { s with feeds := s.feeds.set k g } := by
  have hapart : ∀ (j : ℕ) (f' : Feed α), j ≠ k → s.feeds[j]? = some f' →
      f'.channel = g.channel → ∀ x ∈ f'.got, ∀ y ∈ g.got, x.handle ≠ y.handle := by
    intro j f' hne hj hch x hx y hy hxy
    rcases hnew y hy with hy | hy
    · exact hne (h.apart j k f' f hj hk (hch.trans hc) x hx y hy hxy)
    · exact hy f' (List.mem_of_getElem? hj) (hch.trans hc) x hx hxy
  constructor
  · intro f' hf'
    rcases List.mem_or_eq_of_mem_set hf' with hf' | rfl
    · exact h.feeds f' hf'
    · exact hg
  · intro i j f₁ f₂ h₁ h₂ hch x hx y hy hxy
    rcases Members.of_set h₁ with ⟨rfl, rfl⟩ | ⟨hi, hold₁⟩
    · rcases Members.of_set h₂ with ⟨rfl, -⟩ | ⟨hj, hold₂⟩
      · rfl
      · exact absurd hxy.symm (hapart j f₂ hj hold₂ hch.symm y hy x hx)
    · rcases Members.of_set h₂ with ⟨rfl, rfl⟩ | ⟨hj, hold₂⟩
      · exact absurd hxy (hapart i f₁ hi hold₁ hch x hx y hy)
      · exact h.apart i j f₁ f₂ hold₁ hold₂ hch x hx y hy hxy

theorem Sound.spares (h : Sound s) (hc : Careful s (.server e)) : ∀ f ∈ s.feeds, f.Spares e := by
  intro f hf m got a hg he
  subst he
  refine hc.2.imp_right fun hhanded => (h.feeds f hf).orderly.held.not_waits ?_
  exact hhanded f hf rfl m (List.getElem?_eq_some_iff.mp hg).1 (by rw [hg]; rfl)

theorem Sound.spares_nack (h : Sound s) {m : ℕ} {state : State} {got : Got α}
    (hk : s.feeds[k]? = some f) (hn : Nacks f.noAck f.state state m) (hg : f.got[m]? = some got) :
    ∀ g ∈ s.feeds.set k { f with state := state },
      g.Spares (.act f.channel got.handle (.call (.nack false true))) := by
  have hf := h.feeds f (List.mem_of_getElem? hk)
  intro g hmem m' got' a hg' he
  obtain ⟨hch, hhandle, -⟩ := ChannelAction.act.inj he
  obtain ⟨j, hj⟩ := List.getElem?_of_mem hmem
  rcases Members.of_set hj with ⟨rfl, rfl⟩ | ⟨hne, hj⟩
  · obtain rfl := hf.apart m' m got' got hg' hg hhandle.symm
    exact Or.inr (hf.orderly.held.nacked hn)
  · exact absurd (h.apart j k g f hj hk hch.symm got' (List.mem_of_getElem? hg') got
      (List.mem_of_getElem? hg) hhandle.symm) hne

theorem Feed.Sound.deliver (hf : f.Sound b) {consumer n : ℕ} {c : Channel String α Incoming}
    {ms : List (Deliveries.Ready α)} {m : Deliveries.Ready α} {state : State}
    (hc : b.channels[f.channel]? = some c) (hq : b.queues.get? f.queue = some ms)
    (hm : ms[n]? = some m) (ho : f.state.channelClosed = false)
    (hst : QueueIterator.step f.noAck f.state (.deliver consumer) = some state)
    (hs : channelStep true b (.deliver f.channel f.queue n f.noAck) = some b') :
    Feed.Sound b' { f with state := state, got := f.got ++ [⟨c.handles.length, m.item⟩] } := by
  obtain ⟨c₀, c', ms₀, m₀, hc₀, hq₀, hm₀, hb, he, hh⟩ := Message.delivered_cases hs
  obtain rfl := Option.some.inj (hc.symm.trans hc₀)
  obtain rfl := Option.some.inj (hq.symm.trans hq₀)
  obtain rfl := Option.some.inj (hm.symm.trans hm₀)
  have hc' : b'.channels[f.channel]? = some c' := by
    rw [hb]
    exact List.getElem?_set_self (List.getElem?_eq_some_iff.mp hc).1
  have hcurrent : c'.epoch = f.epoch := by
    obtain ⟨x, hx, hxe⟩ := hf.current ho
    obtain rfl := Option.some.inj (hc.symm.trans hx)
    exact he.trans hxe
  have hold : f.Sound b' := hf.stays hs (fun _ => ⟨c', hc', hcurrent⟩) nofun
  have hnew : c'.handles[c.handles.length]? = some ⟨c.epoch, c.lastTag + 1, m.item, m.redelivered,
      f.noAck, Message.incoming true f.noAck (c.lastTag + 1) m.redelivered⟩ := by
    rw [hh]
    exact List.getElem?_concat_length
  have hlt : ∀ x ∈ f.got, x.handle < c.handles.length := by
    intro x hx
    obtain ⟨y, hy, h, hh, -⟩ := hf.known x hx
    obtain rfl := Option.some.inj (hc.symm.trans hy)
    exact (List.getElem?_eq_some_iff.mp hh).1
  have hd := delivers hst
  have hwaits : ∀ x, Waits state x → x = f.got.length ∨ Waits f.state x := by
    rintro x (hx | hx)
    · rw [hd.inFlight] at hx
      rcases List.mem_append.mp hx with hx | hx
      · exact Or.inr (Or.inl hx)
      · exact Or.inl ((List.mem_singleton.mp hx).trans hf.orderly.length.symm)
    · exact Or.inr (Or.inr (hd.queue ▸ hx))
  constructor
  · exact hf.orderly.deliver hd
  · intro i j x y hi hj hxy
    rcases Members.of_append hi with hi | ⟨rfl, rfl⟩
    · rcases Members.of_append hj with hj | ⟨-, rfl⟩
      · exact hf.apart i j x y hi hj hxy
      · have hx := hlt x (List.mem_of_getElem? hi)
        simp only at hxy
        omega
    · rcases Members.of_append hj with hj | ⟨rfl, -⟩
      · have hy := hlt y (List.mem_of_getElem? hj)
        simp only at hxy
        omega
      · rfl
  · exact fun _ => ⟨c', hc', hcurrent⟩
  · intro x hx
    rcases List.mem_append.mp hx with hx | hx
    · exact hold.known x hx
    · obtain rfl := List.mem_singleton.mp hx
      exact ⟨c', hc', _, hnew, he.symm.trans hcurrent, rfl, rfl, rfl⟩
  · intro _ x got hx hw d hd h hh
    obtain rfl := Option.some.inj (hc'.symm.trans hd)
    rcases Members.of_append hx with hx | ⟨rfl, rfl⟩
    · rcases hwaits x hw with rfl | hw
      · exact absurd (List.getElem?_eq_some_iff.mp hx).1 (Nat.lt_irrefl _)
      · exact hold.untouched ho x got hx hw c' hc' h hh
    · obtain rfl := Option.some.inj (hnew.symm.trans hh)
      rfl

theorem sound_step (h : Sound s) (hc : Careful s a) (hs : s.step a = some t) : Sound t := by
  cases step_cases hs with
  | server hserve => exact h.serve hserve (h.spares hc)
  | @iterator p queue noAck c hp =>
    constructor
    · intro f hf
      rcases List.mem_append.mp hf with hf | hf
      · exact h.feeds f hf
      · obtain rfl := List.mem_singleton.mp hf
        exact {
          orderly := ⟨rfl, fun _ => Nat.le_refl _⟩
          apart := fun _ _ _ _ hi => by cases hi
          current := fun _ => ⟨c, hp, rfl⟩
          known := fun _ hx => absurd hx List.not_mem_nil
          untouched := fun _ _ _ hi => by cases hi }
    · intro j k f g hj hk hch x hx y hy hxy
      rcases Members.of_append hj with hj | ⟨-, rfl⟩
      · rcases Members.of_append hk with hk | ⟨-, rfl⟩
        · exact h.apart j k f g hj hk hch x hx y hy hxy
        · cases hy
      · cases hx
  | @deliver k consumer n f c ms m state t hf hch hq hm ho hst hserve =>
    have hmem : f ∈ s.feeds := List.mem_of_getElem? hf
    have ht : Sound t := h.serve hserve fun g _ m got a _ he => by cases he
    obtain ⟨b, hb, rfl⟩ := serve_cases hserve
    have hg := (h.feeds f hmem).deliver hch hq hm ho hst hb
    have hchannel : (f.follow b).channel = f.channel := follow_channel
    refine ht.set (f := f.follow b) ?_ hg hchannel.symm fun x hx => ?_
    · simp [hf]
    · rw [follow_got]
      refine (List.mem_append.mp hx).imp_right fun hx => ?_
      obtain rfl := List.mem_singleton.mp hx
      intro f' hf' hsame y hy
      obtain ⟨g, hg, rfl⟩ := List.mem_map.mp hf'
      rw [follow_channel, follow_channel] at hsame
      rw [follow_got] at hy
      obtain ⟨d, hd, h', hh', -⟩ := (h.feeds g hg).known y hy
      rw [hsame] at hd
      obtain rfl := Option.some.inj (hch.symm.trans hd)
      exact Nat.ne_of_lt (List.getElem?_eq_some_iff.mp hh').1
  | pass hf ha hst hp hn =>
    exact h.set hf ((h.feeds _ (List.mem_of_getElem? hf)).pass hp) rfl fun x hx => Or.inl hx
  | nack hf ha hst hp hn hg hserve =>
    have hset := h.set hf ((h.feeds _ (List.mem_of_getElem? hf)).pass hp) rfl
      fun x hx => Or.inl hx
    exact hset.serve hserve (h.spares_nack hf hn hg)

theorem Sound.politely (h : Sound s) {m : ℕ} {state : State} {got : Got α}
    (hk : s.feeds[k]? = some f) (hn : Nacks f.noAck f.state state m) (hg : f.got[m]? = some got) :
    Message.Politely s.server (.act f.channel got.handle (.call (.nack false true))) := by
  intro c hc x hx _
  have hw : Waits f.state m := by
    right
    rw [hn.queue]
    exact List.mem_cons_self
  have hfresh :=
    (h.feeds f (List.mem_of_getElem? hk)).untouched hn.channelClosed m got hg hw c hc x hx
  refine ⟨rfl, fun _ => ?_⟩
  rw [hfresh]
  exact fun call hcall => absurd hcall List.not_mem_nil

theorem smooth_step (h : Sound s) (hm : Message.Smooth s.server) (hc : Careful s a)
    (hs : s.step a = some t) : Message.Smooth t.server := by
  cases step_cases hs with
  | @server e t hserve =>
    obtain ⟨b, hb, rfl⟩ := serve_cases hserve
    refine Message.smooth_step hm ?_ hb
    cases e with
    | act p i a => exact hc.1
    | _ => trivial
  | iterator => exact hm
  | deliver _ _ _ _ _ _ hserve =>
    obtain ⟨b, hb, rfl⟩ := serve_cases hserve
    refine Message.smooth_step hm ?_ hb
    trivial
  | pass => exact hm
  | nack hf ha hst hp hn hg hserve =>
    obtain ⟨b, hb, rfl⟩ := serve_cases hserve
    exact Message.smooth_step hm (h.politely hf hn hg) hb

/-- The messages that `close()` has nacked were nacked and nothing else, as long as the underlay
channel lasts. -/
def Feed.Nacked (b : Server α) (f : Feed α) : Prop := f.state.channelClosed = false →
  ∀ m ∈ f.state.nacked, ∀ got, f.got[m]? = some got → ∀ c ∈ b.channels[f.channel]?,
    ∀ h ∈ c.handles[got.handle]?, h.state.state.frames = [.nack false true]

theorem frames_kept {p i : ℕ} {c c' : Channel String α Incoming} {h h' : Handle α Incoming}
    (hs : channelStep true b e = some b') (hc : b.channels[p]? = some c)
    (hc' : b'.channels[p]? = some c') (he : c'.epoch = c.epoch) (hi : c.handles[i]? = some h)
    (hi' : c'.handles[i]? = some h') (ha : ∀ a, e = .act p i a → Ends a) :
    h'.state.state.frames = h.state.state.frames := by
  by_cases hact : ∃ a, e = .act p i a
  · obtain ⟨a, rfl⟩ := hact
    obtain ⟨c₀, h₀, u, -, hc₀, hi₀, hu, rfl⟩ := Message.act_cases hs
    obtain rfl := Option.some.inj (hc.symm.trans hc₀)
    obtain rfl := Option.some.inj (hi.symm.trans hi₀)
    obtain rfl := Option.some.inj
      ((List.getElem?_set_self (List.getElem?_eq_some_iff.mp hc).1).symm.trans hc')
    obtain rfl := Option.some.inj
      ((List.getElem?_set_self (List.getElem?_eq_some_iff.mp hi).1).symm.trans hi')
    obtain ⟨-, hframes | ⟨-, frame, hsend, -⟩⟩ := Message.frames_step (by rintro rfl; cases hs) hu
    · exact hframes
    · cases a with
      | sent j => exact hsend.elim
      | _ => exact (ha _ rfl).elim
  · obtain ⟨c₁, hc₁, hst⟩ := Message.channelStep_stays hs hc
    obtain rfl := Option.some.inj (hc'.symm.trans hc₁)
    obtain ⟨h₁, hi₁, -, -, -, -, -, hsame⟩ := hst.handles i h hi
    obtain rfl := Option.some.inj (hi'.symm.trans hi₁)
    rw [hsame he fun a ha => hact ⟨a, ha⟩]

theorem Feed.Sound.lasts (hf : f.Sound b) (ho : f.state.channelClosed = false)
    {c' : Channel String α Incoming} (he : c'.epoch = f.epoch) {m : ℕ} {got : Got α}
    (hg : f.got[m]? = some got) :
    ∃ c h, b.channels[f.channel]? = some c ∧ c'.epoch = c.epoch ∧
      c.handles[got.handle]? = some h ∧ h.epoch = c.epoch ∧ h.auto = f.noAck ∧
      h.state.message.basicNack = true := by
  obtain ⟨c, hc, hce⟩ := hf.current ho
  obtain ⟨d, hd, h, hh, hhe, hauto, -, hnack⟩ := hf.known got (List.mem_of_getElem? hg)
  obtain rfl := Option.some.inj (hc.symm.trans hd)
  exact ⟨c, h, hc, he.trans hce.symm, hh, hhe.trans hce.symm, hauto, hnack⟩

theorem Feed.Nacked.stays (hn : f.Nacked b) (hf : f.Sound b) (hs : channelStep true b e = some b')
    (hc : ∃ c ∈ b'.channels[f.channel]?, c.epoch = f.epoch)
    (he : ∀ m ∈ f.state.nacked, ∀ got a, f.got[m]? = some got → e = .act f.channel got.handle a →
      Ends a) : f.Nacked b' := by
  obtain ⟨c₁, hc₁, he₁⟩ := hc
  intro ho m hm got hg c₂ hc₂ h' hh'
  obtain rfl := Option.some.inj (hc₁.symm.trans hc₂)
  obtain ⟨c, h, hc, hce, hh, -⟩ := hf.lasts ho he₁ hg
  rw [frames_kept hs hc hc₁ hce hh hh' fun a ha => he m hm got a hg ha]
  exact hn ho m hm got hg c hc h hh

theorem Feed.Nacked.follow (hn : f.Nacked b) (hf : f.Sound b) (hs : channelStep true b e = some b')
    (he : ∀ m ∈ f.state.nacked, ∀ got a, f.got[m]? = some got → e = .act f.channel got.handle a →
      Ends a) : (f.follow b').Nacked b' := by
  unfold Feed.follow
  split
  · rename_i hc
    exact hn.stays hf hs hc he
  · nofun

theorem Feed.Nacked.nack (hn : f.Nacked b) (hf : f.Sound b) (hl : Message.Connected b) {m : ℕ}
    {state : State} {got : Got α} (hst : Nacks f.noAck f.state state m) (hg : f.got[m]? = some got)
    (hs : channelStep true b (.act f.channel got.handle (.call (.nack false true))) = some b') :
    (Feed.follow b' { f with state := state }).Nacked b' := by
  unfold Feed.follow
  split
  · rename_i hcurrent
    obtain ⟨c₁, hc₁, he₁⟩ := hcurrent
    intro ho m' hm' got' hg' c' hc' h' hh'
    obtain rfl := Option.some.inj (hc₁.symm.trans hc')
    have hold : f.state.channelClosed = false := hst.channelClosed
    obtain ⟨c, h, hc, hce, hh, hhe, hauto, hnack⟩ := hf.lasts hold he₁ hg'
    have hm' : m' ∈ f.state.nacked ++ [m] := hst.nacked ▸ hm'
    have hw : Waits f.state m := Or.inr (by rw [hst.queue]; exact List.mem_cons_self)
    rcases List.mem_append.mp hm' with hm' | hm'
    · rw [frames_kept hs hc hc₁ hce hh hh' fun a ha => ?_]
      · exact hn hold m' hm' got' hg' c hc h hh
      · obtain ⟨-, hhandle, -⟩ := ChannelAction.act.inj ha
        obtain rfl := hf.apart m m' got got' hg hg' hhandle
        exact absurd hm' (hf.orderly.held.waits_not_nacked hw)
    · obtain rfl := List.mem_singleton.mp hm'
      obtain rfl := Option.some.inj (hg.symm.trans hg')
      obtain ⟨c₀, h₀, u, -, hc₀, hi₀, hu, rfl⟩ := Message.act_cases hs
      obtain rfl := Option.some.inj (hc.symm.trans hc₀)
      obtain rfl := Option.some.inj (hh.symm.trans hi₀)
      obtain rfl := Option.some.inj
        ((List.getElem?_set_self (List.getElem?_eq_some_iff.mp hc).1).symm.trans hc₁)
      obtain rfl := Option.some.inj
        ((List.getElem?_set_self (List.getElem?_eq_some_iff.mp hh).1).symm.trans hh')
      have hlinked := hl.handles c (List.mem_of_getElem? hc) h (List.mem_of_getElem? hh)
      have hfresh := hf.untouched hold _ got hg hw c hc h hh
      have hopen : h.state.state.channelClosed = false := hlinked.channel.mp hhe
      have hack : h.state.message.noAck = false := by rw [hlinked.noAck, hauto, hst.noAck]
      have htag : h.state.message.deliveryTag.getD 0 ≠ 0 := by
        rw [hlinked.tag]
        exact Nat.ne_of_gt hlinked.pos
      have hproc : h.state.state.processed = false := by
        rw [hfresh]
        simp [Message.fresh, hack, htag]
      have hsupported : Message.Frame.Supported h.state.message (.nack false true) := hnack
      obtain ⟨text, hcall⟩ := Message.call_settle hopen hsupported
      rw [Message.settle_sending hack htag hopen hproc] at hcall
      obtain rfl := hcall.symm.trans (Option.some.inj hu)
      change h.state.state.frames ++ [.nack false true] = [.nack false true]
      rw [hfresh]
      rfl
  · nofun

theorem nacked_step (h : Sound s) (hm : Message.Smooth s.server)
    (hn : ∀ f ∈ s.feeds, f.Nacked s.server) (hc : Careful s a) (hs : s.step a = some t) :
    ∀ f ∈ t.feeds, f.Nacked t.server := by
  have hserve : ∀ {e : ChannelAction α} {b : Server α}, channelStep true s.server e = some b →
      (∀ f ∈ s.feeds, ∀ m ∈ f.state.nacked, ∀ got a, f.got[m]? = some got →
        e = .act f.channel got.handle a → Ends a) →
      ∀ f ∈ s.feeds.map (Feed.follow b), f.Nacked b := by
    intro e b hb he f hf
    obtain ⟨g, hg, rfl⟩ := List.mem_map.mp hf
    exact (hn g hg).follow (h.feeds g hg) hb (he g hg)
  cases step_cases hs with
  | @server e t hst =>
    obtain ⟨b, hb, rfl⟩ := serve_cases hst
    refine hserve hb fun f hf m hm got a hg he => ?_
    subst he
    refine hc.2.resolve_right fun hhanded => ?_
    refine (h.feeds f hf).orderly.held.not_nacked ?_ hm
    exact hhanded f hf rfl m (List.getElem?_eq_some_iff.mp hg).1 (by rw [hg]; rfl)
  | iterator =>
    intro f hf
    rcases List.mem_append.mp hf with hf | hf
    · exact hn f hf
    · obtain rfl := List.mem_singleton.mp hf
      exact fun _ m hm => absurd hm List.not_mem_nil
  | @deliver k consumer n f c ms m state t hk hch hq hi ho hst ht =>
    obtain ⟨b, hb, rfl⟩ := serve_cases ht
    have hmem : f ∈ s.feeds := List.mem_of_getElem? hk
    have hf := h.feeds f hmem
    have hd := delivers hst
    have hnew := hf.deliver hch hq hi ho hst hb
    have hlast : f.Nacked b := (hn f hmem).stays hf hb (hnew.current (hd.channelClosed.trans ho))
      fun _ _ _ _ _ he => by cases he
    intro g hg
    rcases List.mem_or_eq_of_mem_set hg with hg | rfl
    · exact hserve hb (fun _ _ _ _ _ _ _ he => by cases he) g hg
    · intro _ x hx got hgot
      have hx : x ∈ f.state.nacked := hd.nacked ▸ hx
      refine hlast ho x hx got ?_
      rcases Members.of_append hgot with hgot | ⟨rfl, -⟩
      · exact hgot
      · exact absurd (hf.orderly.held.nacked_lt hx) (by rw [hf.orderly.length]; omega)
  | @pass k a f state hk ha hst hp hsame =>
    intro g hg
    rcases List.mem_or_eq_of_mem_set hg with hg | rfl
    · exact hn g hg
    · intro ho m hmem
      rw [hp.channelClosed] at ho
      exact hn f (List.mem_of_getElem? hk) ho m (hsame ▸ hmem)
  | @nack k m a f state got t hk ha hst hp hnew hg ht =>
    obtain ⟨b, hb, rfl⟩ := serve_cases ht
    have hf := h.feeds f (List.mem_of_getElem? hk)
    intro g' hmem
    obtain ⟨g, hg', rfl⟩ := List.mem_map.mp hmem
    obtain ⟨j, hj⟩ := List.getElem?_of_mem hg'
    rcases Members.of_set hj with ⟨rfl, rfl⟩ | ⟨hne, hj⟩
    · exact (hn f (List.mem_of_getElem? hk)).nack hf hm.accounted.2 hnew hg hb
    · have hmem : g ∈ s.feeds := List.mem_of_getElem? hj
      refine (hn g hmem).follow (h.feeds g hmem) hb fun m' _ got' a' hg' he => ?_
      obtain ⟨hch, hhandle, -⟩ := ChannelAction.act.inj he
      exact absurd (h.apart j k g f hj hk hch.symm got' (List.mem_of_getElem? hg') got
        (List.mem_of_getElem? hg) hhandle.symm) hne

/-- No message reaches `on_message` of an iterator after the `close()` of its consumer. -/
def InTime (s : System α) : Action α → Prop
  | .iterate k a => ∀ f ∈ s.feeds[k]?, QueueIterator.InTime f.state a
  | _ => True

instance (s : System α) : DecidablePred (InTime s)
  | .iterate k a =>
    inferInstanceAs (Decidable (∀ f ∈ s.feeds[k]?, QueueIterator.InTime f.state a))
  | .server _ | .iterator _ _ _ | .deliver _ _ _ => .isTrue trivial

/-- As long as its channel lasts, every message of an iterator is in one place. -/
def Feed.Placed (f : Feed α) : Prop :=
  f.noAck = false → f.state.channelClosed = false → QueueIterator.Inv f.state

theorem Feed.Placed.follow (h : f.Placed) : (f.follow b).Placed := by
  unfold Feed.follow
  split
  · exact h
  · nofun

/-- What each iterator keeps, whatever happens at the broker, all iterators keep. -/
theorem forall_step {P : Feed α → Prop} (hfollow : ∀ b f, P f → P (f.follow b))
    (hnew : ∀ p e queue noAck, P ⟨p, e, queue, noAck, QueueIterator.fresh, []⟩)
    (hdeliver : ∀ f c state got, QueueIterator.step f.noAck f.state (.deliver c) = some state →
      P f → P { f with state := state, got := f.got ++ [got] })
    (hiterate : ∀ k x f state, a = .iterate k x → s.feeds[k]? = some f → x ≠ .channelClosed →
      QueueIterator.step f.noAck f.state x = some state → Passes f.state state → P f →
        P { f with state := state })
    (h : ∀ f ∈ s.feeds, P f) (hs : s.step a = some t) : ∀ f ∈ t.feeds, P f := by
  have hserve : ∀ {e : ChannelAction α} {u u' : System α}, (∀ f ∈ u.feeds, P f) →
      u.serve e = some u' → ∀ f ∈ u'.feeds, P f := by
    intro e u u' hu hs f hf
    obtain ⟨b, -, rfl⟩ := serve_cases hs
    obtain ⟨g, hg, rfl⟩ := List.mem_map.mp hf
    exact hfollow b g (hu g hg)
  have hset : ∀ {fs : List (Feed α)} {k : ℕ} {g : Feed α}, (∀ f ∈ fs, P f) → P g →
      ∀ f ∈ fs.set k g, P f := by
    intro fs k g hfs hg f hf
    rcases List.mem_or_eq_of_mem_set hf with hf | rfl
    · exact hfs f hf
    · exact hg
  cases step_cases hs with
  | server ht => exact hserve h ht
  | iterator =>
    intro f hf
    rcases List.mem_append.mp hf with hf | hf
    · exact h f hf
    · obtain rfl := List.mem_singleton.mp hf
      exact hnew _ _ _ _
  | deliver hk _ _ _ _ hst ht =>
    exact hset (hserve h ht) (hdeliver _ _ _ _ hst (h _ (List.mem_of_getElem? hk)))
  | pass hk ha hst hp =>
    exact hset h (hiterate _ _ _ _ rfl hk ha hst hp (h _ (List.mem_of_getElem? hk)))
  | nack hk ha hst hp _ _ ht =>
    exact hserve (hset h (hiterate _ _ _ _ rfl hk ha hst hp (h _ (List.mem_of_getElem? hk)))) ht

theorem placed_step (h : ∀ f ∈ s.feeds, f.Placed) (hc : InTime s a) (hs : s.step a = some t) :
    ∀ f ∈ t.feeds, f.Placed := by
  have hnew : ∀ (p e : ℕ) (queue : String) (noAck : Bool),
      Feed.Placed (⟨p, e, queue, noAck, QueueIterator.fresh, []⟩ : Feed α) :=
    fun _ _ _ _ _ _ => QueueIterator.fresh_inv
  apply forall_step (fun _ _ hf => hf.follow) hnew ?_ ?_ h hs
  · intro f c state got hst hf hno ho
    have hin : QueueIterator.InTime f.state (.deliver c) := trivial
    exact QueueIterator.inv_step hno (by simp) hin
      (hf hno ((delivers hst).channelClosed.symm.trans ho)) hst
  · rintro k x f state rfl hk hx hst hp hf hno ho
    exact QueueIterator.inv_step hno hx (hc f hk) (hf hno (hp.channelClosed.symm.trans ho)) hst

theorem server_step (hs : s.step a = some t) :
    t.server = s.server ∨ ∃ e, channelStep true s.server e = some t.server := by
  cases step_cases hs with
  | server ht =>
    obtain ⟨b, hb, rfl⟩ := serve_cases ht
    exact Or.inr ⟨_, hb⟩
  | iterator => exact Or.inl rfl
  | deliver _ _ _ _ _ _ ht =>
    obtain ⟨b, hb, rfl⟩ := serve_cases ht
    exact Or.inr ⟨_, hb⟩
  | pass => exact Or.inl rfl
  | nack _ _ _ _ _ _ ht =>
    obtain ⟨b, hb, rfl⟩ := serve_cases ht
    exact Or.inr ⟨_, hb⟩

theorem accounted_step (h : Message.Accounted s.server) (hs : s.step a = some t) :
    Message.Accounted t.server ∧ ∃ m, Deliveries.Move Message.client s.server m t.server := by
  rcases server_step hs with he | ⟨e, he⟩
  · rw [he]
    exact ⟨h, none, .stay⟩
  · obtain ⟨m, hm, -⟩ := Message.channelStep_move h.2 he
    exact ⟨Message.accounted_step h he, m, hm⟩

theorem orderly_step (h : ∀ f ∈ s.feeds, f.Orderly) (hs : s.step a = some t) :
    ∀ f ∈ t.feeds, f.Orderly := by
  have hnew : ∀ (p e : ℕ) (queue : String) (noAck : Bool),
      Feed.Orderly (⟨p, e, queue, noAck, QueueIterator.fresh, []⟩ : Feed α) :=
    fun _ _ _ _ => ⟨rfl, fun _ => Nat.le_refl _⟩
  apply forall_step (fun _ _ hf => hf.follow) hnew ?_ ?_ h hs
  · intro f c state got hst hf
    exact hf.deliver (delivers hst)
  · intro k x f state _ _ _ _ hp hf
    exact hf.pass hp

def Feed.bodies (f : Feed α) : List α := f.got.map Got.body

/-- The bodies of the messages that `__anext__` has returned. -/
def Feed.handed (f : Feed α) : List α :=
  (f.state.calls.flatMap QueueIterator.Pc.holds).filterMap fun m => f.got[m]?.map Got.body

theorem bodies_follow : (f.follow b).bodies = f.bodies := by
  rw [Feed.bodies, follow_got, Feed.bodies]

theorem handed_all (l : List (Got α)) :
    (List.range l.length).filterMap (fun m => l[m]?.map Got.body) = l.map Got.body := by
  induction l with
  | nil => rfl
  | cons x l ih =>
    rw [List.length_cons, List.range_succ_eq_map, List.filterMap_cons, List.filterMap_map]
    simpa [Function.comp_def] using ih

variable [DecidableEq α] {x : α}

/-- An iterator hands out no message twice. -/
theorem Feed.Orderly.handed_le (h : f.Orderly) : f.handed.count x ≤ f.bodies.count x := by
  have hsub : List.Subperm (f.state.calls.flatMap QueueIterator.Pc.holds)
      (List.range f.got.length) := by
    apply List.subperm_ext_iff.mpr
    intro m _
    have hm := h.held m
    rw [h.length, Custody.count_flatMap]
    omega
  obtain ⟨l, hl, hlsub⟩ := hsub
  have hcount := (hl.filterMap fun m => f.got[m]?.map Got.body).count_eq x
  rw [Feed.handed, ← hcount, Feed.bodies, ← handed_all]
  exact (hlsub.filterMap _).count_le x

/-- How often the iterators got a message. -/
def System.got (s : System α) (x : α) : ℕ := Custody.count Feed.bodies s.feeds x

/-- How often `__anext__` has returned a message. -/
def System.handedOut (s : System α) (x : α) : ℕ := Custody.count Feed.handed s.feeds x

theorem got_follow (fs : List (Feed α)) :
    Custody.count Feed.bodies (fs.map (Feed.follow b)) x = Custody.count Feed.bodies fs x := by
  rw [Custody.count, List.map_map, Custody.count]
  simp [Function.comp_def, bodies_follow]

/-- Every message that an iterator got is a delivery. -/
theorem got_step (hl : Message.Connected s.server) (h : s.got x ≤ s.server.deliveries x)
    (hs : s.step a = some t) : t.got x ≤ t.server.deliveries x := by
  unfold System.got at h ⊢
  have hserve : ∀ {e : ChannelAction α} {b : Server α}, channelStep true s.server e = some b →
      s.server.deliveries x ≤ b.deliveries x := by
    intro e b hb
    obtain ⟨m, hm, -⟩ := Message.channelStep_move hl hb
    exact Deliveries.deliveries_move hm
  have hset : ∀ {k : ℕ} {f : Feed α} {state : State}, s.feeds[k]? = some f →
      Custody.count Feed.bodies (s.feeds.set k { f with state := state }) x =
        Custody.count Feed.bodies s.feeds x := by
    intro k f state hk
    have hcount := @Custody.count_set _ _ _ Feed.bodies _ _ { f with state := state } x _ hk
    exact Nat.add_right_cancel hcount
  cases step_cases hs with
  | server ht =>
    obtain ⟨b, hb, rfl⟩ := serve_cases ht
    rw [got_follow]
    exact Nat.le_trans h (hserve hb)
  | iterator =>
    rw [Custody.count_append]
    exact h
  | @deliver k consumer n f c ms m state t hk hch hq hi ho hst ht =>
    obtain ⟨b, hb, rfl⟩ := serve_cases ht
    obtain ⟨c₀, c', ms₀, m₀, hc₀, hq₀, hm₀, hchannels, -, hhandles⟩ := Message.delivered_cases hb
    obtain rfl := Option.some.inj (hq.symm.trans hq₀)
    obtain rfl := Option.some.inj (hi.symm.trans hm₀)
    have hdelivered : b.deliveries x = s.server.deliveries x + [m.item].count x := by
      unfold Deliveries.Broker.deliveries
      rw [hchannels]
      exact Deliveries.count_handles_append Deliveries.Handle.items hc₀ hhandles
    let g : Feed α := { f with
      state := state
      got := f.got ++ [⟨c.handles.length, m.item⟩] }
    have hk' : (s.feeds.map (Feed.follow b))[k]? = some (f.follow b) := by simp [hk]
    have hcount := @Custody.count_set _ _ _ Feed.bodies _ _ g x _ hk'
    have hbodies : g.bodies.count x = f.bodies.count x + [m.item].count x := by
      simp only [g, Feed.bodies, List.map_append, List.count_append, List.map_cons, List.map_nil]
    rw [got_follow, bodies_follow, hbodies] at hcount
    change Custody.count Feed.bodies ((s.feeds.map (Feed.follow b)).set k g) x ≤ b.deliveries x
    omega
  | pass hk =>
    rw [hset hk]
    exact h
  | nack hk _ _ _ _ _ ht =>
    obtain ⟨b, hb, rfl⟩ := serve_cases ht
    rw [got_follow, hset hk]
    exact Nat.le_trans h (hserve hb)

theorem handedOut_le (h : ∀ f ∈ s.feeds, f.Orderly) : s.handedOut x ≤ s.got x :=
  List.sum_le_sum fun f hf => (h f hf).handed_le

end Steps

section Runs

open Transition

variable {s : System α} {n : ℕ} {as : List (Action α)}

theorem careful_run (hr : Run System.step Careful (fresh n) as s) :
    Sound s ∧ Message.Smooth s.server :=
  hr.invariant (I := fun s => Sound s ∧ Message.Smooth s.server)
    (fun _ _ _ h hc hs => ⟨sound_step h.1 hc hs, smooth_step h.1 h.2 hc hs⟩)
    ⟨fresh_sound, Message.fresh_smooth⟩

/-- Iterators and their users do not get into each other's way: as long as users settle the messages
that they were handed, nothing that is sent for a message is refused, by whomever. -/
theorem iterators_accepted (hr : Run System.step Careful (fresh n) as s) : Clean s.server :=
  (careful_run hr).2.clean

/-- One of three messages is handed out and acknowledged, another one is in the buffer when the
iterator is closed. -/
def oneHandedOut : List (Action ℕ) :=
  [.server (.declareQueue "tasks"), .server (.publish "tasks" 3), .server (.publish "tasks" 4),
    .server (.publish "tasks" 5), .iterator 0 "tasks" false, .iterate 0 .next,
    .iterate 0 (.consumed 0), .deliver 0 0 0, .deliver 0 0 0, .iterate 0 (.onMessage 0),
    .iterate 0 (.got 0), .server (.act 0 0 (.call (.ack false))), .iterate 0 (.onMessage 1),
    .iterate 0 .close, .iterate 0 (.cancelOk 0), .iterate 0 (.resumed 1), .server (.receive 0),
    .server (.receive 0), .server (.act 0 1 (.sent 0)), .iterate 0 (.sent 1)]

theorem one_handed_out : ∃ s, Run System.step Careful (fresh 1) oneHandedOut s ∧ Clean s.server ∧
    s.server.settled.map Settled.item = [3, 4] := by
  obtain ⟨s, hs⟩ : ∃ s, checked System.step Careful (fresh 1) oneHandedOut = some s := ⟨_, rfl⟩
  have hr := run_of_checked hs
  obtain rfl := Option.some.inj hs
  exact ⟨_, hr, iterators_accepted hr, rfl⟩

/-- The broker has settled a message of an iterator with `requeue`: it goes back to its queue, if
that is still there. -/
def Requeued (s : System α) (f : Feed α) (m : ℕ) : Prop :=
  ∃ got ∈ f.got[m]?, ∃ c ∈ s.server.channels[f.channel]?, ∃ h ∈ c.handles[got.handle]?,
    ∃ r ∈ s.server.settled, r.channel = f.channel ∧ r.epoch = f.epoch ∧ r.tag = h.tag ∧
      r.item = got.body ∧ r.note.verb = .requeue

/-- What is nacked goes back to its queue, when nothing is on the way to the broker. -/
theorem requeued_of_nacked {f : Feed α} {m : ℕ} (hs : Sound s) (hm : Message.Smooth s.server)
    (hcomplete : Deliveries.Complete s.server) (hn : f.Nacked s.server) (hf : f ∈ s.feeds)
    (ho : f.state.channelClosed = false) (hno : f.noAck = false)
    (hw : ∀ c ∈ s.server.channels[f.channel]?, c.wire = []) (hnacked : m ∈ f.state.nacked) :
    Requeued s f m := by
  have hfeed := hs.feeds f hf
  have hlt : m < f.got.length := by
    rw [hfeed.orderly.length]
    exact hfeed.orderly.held.nacked_lt hnacked
  have hgot : f.got[m]? = some f.got[m] := List.getElem?_eq_getElem hlt
  obtain ⟨c, hc, hce⟩ := hfeed.current ho
  obtain ⟨d, hd, h, hh, hhe, hauto, hitem, -⟩ := hfeed.known _ (List.mem_of_getElem? hgot)
  obtain rfl : c = d := Option.some.inj (hc.symm.trans hd)
  have hmem : h ∈ c.handles := List.mem_of_getElem? hh
  have hepoch : h.epoch = c.epoch := hhe.trans hce.symm
  have hnote : (false, .requeue) ∈ Message.client.notes h.state := by
    refine List.mem_map.mpr ⟨.nack false true, ?_, rfl⟩
    rw [hn ho m hnacked _ hgot c hc h hh]
    exact List.mem_singleton_self _
  have hsound := hm.accounted.1.channels c (List.mem_of_getElem? hc)
  have hspent : ∀ o ∈ c.owed, o.tag ≠ h.tag := by
    intro o hmemo ht
    rcases hsound.asked h hmem hepoch ⟨h.tag, false, .requeue⟩
      (Deliveries.mem_notes.mpr ⟨rfl, hnote⟩) with hwire | hcov
    · rw [hw c hc] at hwire
      cases hwire
    · exact hcov o hmemo (ht ▸ Deliveries.Note.covers_self)
  rcases hcomplete f.channel c hc h hmem hepoch (hauto.trans hno) with
    ⟨o, hmemo, ht⟩ | ⟨r, hr, hkey⟩
  · exact absurd ht (hspent o hmemo)
  · obtain ⟨hrc, hre, hrt⟩ : r.channel = f.channel ∧ r.epoch = c.epoch ∧ r.tag = h.tag := by
      simpa [Deliveries.Settled.key] using hkey
    have hsingle : ∀ c', s.server.channels[r.channel]? = some c' → ∀ h' ∈ c'.handles,
        h'.epoch = r.epoch → ∀ x ∈ Message.client.notes h'.state, x.1 = false := by
      intro c' hc' h' hh' he'
      rw [hrc] at hc'
      obtain rfl := Option.some.inj (Option.mem_def.mp hc ▸ hc')
      exact Message.notes_single hm.accounted hm.mannerly (List.mem_of_getElem? hc') h' hh'
        (he'.trans hre)
    obtain ⟨c', hc', h', hh', he', ht', hi', hverb⟩ := hm.accounted.1.own hr hsingle
    rw [hrc] at hc'
    obtain rfl := Option.some.inj (Option.mem_def.mp hc ▸ hc')
    obtain ⟨j, hj⟩ := List.getElem?_of_mem hh'
    obtain rfl := hsound.unique j f.got[m].handle h' h hj hh (by rw [he', hre, hepoch])
      (ht'.trans hrt)
    obtain rfl := Option.some.inj (hh.symm.trans hj)
    have hframes : Message.client.notes h.state = [(false, .requeue)] := by
      change h.state.state.frames.map Message.Frame.note = [(false, .requeue)]
      rw [hn ho m hnacked _ hgot c hc h hh]
      rfl
    rw [hframes] at hverb
    obtain ⟨-, hverb⟩ := Prod.mk.inj (List.mem_singleton.mp hverb)
    exact ⟨_, hgot, c, hc, h, hh, r, hr, hrc, hre.trans hce, hrt, hi'.symm.trans hitem, hverb⟩

theorem run_invariants (hr : Run System.step (fun s a => Careful s a ∧ InTime s a) (fresh n) as s) :
    ((Sound s ∧ Message.Smooth s.server) ∧ Deliveries.Complete s.server) ∧
      (∀ f ∈ s.feeds, f.Nacked s.server) ∧ ∀ f ∈ s.feeds, f.Placed := by
  refine hr.invariant (I := fun s => ((Sound s ∧ Message.Smooth s.server) ∧
    Deliveries.Complete s.server) ∧ (∀ f ∈ s.feeds, f.Nacked s.server) ∧
      ∀ f ∈ s.feeds, f.Placed) ?_ ?_
  · rintro s a t ⟨⟨⟨hsound, hsmooth⟩, hcomplete⟩, hnacked, hplaced⟩ ⟨hc, ht⟩ hs
    obtain ⟨-, m, hm⟩ := accounted_step hsmooth.accounted hs
    exact ⟨⟨⟨sound_step hsound hc hs, smooth_step hsound hsmooth hc hs⟩,
      hcomplete.move hsmooth.accounted.1 hm⟩, nacked_step hsound hsmooth hnacked hc hs,
      placed_step hplaced ht hs⟩
  · exact ⟨⟨⟨fresh_sound, Message.fresh_smooth⟩, Deliveries.fresh_complete⟩,
      fun f hf => absurd hf List.not_mem_nil, fun f hf => absurd hf List.not_mem_nil⟩

/-- When the `close()` of a consumer has returned, and nothing is on the way any more, an iterator
has kept nothing: each message of the consumer was handed out by one `__anext__`, or by none and has
gone back. -/
theorem closed_keeps_nothing
    (hr : Run System.step (fun s a => Careful s a ∧ InTime s a) (fresh n) as s) {f : Feed α}
    (hf : f ∈ s.feeds) (hno : f.noAck = false) (ho : f.state.channelClosed = false) {c m : ℕ}
    (hc : .closed c ∈ f.state.calls) (hin : ∀ x ∈ f.state.inFlight, f.state.delivered[x]? ≠ some c)
    (hw : ∀ c ∈ s.server.channels[f.channel]?, c.wire = [])
    (hm : f.state.delivered[m]? = some c) :
    (∃! i, f.state.Returned i m) ∨ (∀ i, ¬ f.state.Returned i m) ∧ Requeued s f m := by
  obtain ⟨⟨⟨hsound, hsmooth⟩, hcomplete⟩, hnacked, hplaced⟩ := run_invariants hr
  obtain ⟨-, ⟨hone, -⟩ | ⟨hnone, hcount⟩⟩ := (hplaced f hf hno ho).lossless hc hin hm
  · exact Or.inl hone
  · refine Or.inr ⟨hnone, ?_⟩
    exact requeued_of_nacked hsound hsmooth hcomplete (hnacked f hf) hf ho hno hw
      (List.count_pos_iff.mp (by omega))

theorem second_put_back : ∃ s f, Run System.step (fun s a => Careful s a ∧ InTime s a) (fresh 1)
    oneHandedOut s ∧ f ∈ s.feeds ∧ f.state.delivered[1]? = some 0 ∧
    ((∃! i, f.state.Returned i 1) ∨ (∀ i, ¬ f.state.Returned i 1) ∧ Requeued s f 1) := by
  obtain ⟨s, hs⟩ : ∃ s, checked System.step (fun s a => Careful s a ∧ InTime s a) (fresh 1)
    oneHandedOut = some s := ⟨_, rfl⟩
  have hr := run_of_checked hs
  obtain rfl := Option.some.inj hs
  have hkept := closed_keeps_nothing hr (c := 0) (m := 1) (List.mem_singleton_self _) rfl rfl
    (by decide) (by decide) (by decide) rfl
  exact ⟨_, _, hr, List.mem_singleton_self _, rfl, hkept⟩

/-- A message is handed out no more often than it was published, or went back to its queue. -/
theorem handed_out_bounded [DecidableEq α] {x : α} {ok : System α → Action α → Prop}
    (hr : Run System.step ok (fresh n) as s) : s.handedOut x ≤
      s.server.published.count x + s.server.returned.count x + s.server.requeued x := by
  obtain ⟨haccounted, horderly, hgot, hcounted⟩ := hr.invariant
    (I := fun s => Message.Accounted s.server ∧ (∀ f ∈ s.feeds, f.Orderly) ∧
      s.got x ≤ s.server.deliveries x ∧ s.server.Counted x) (by
    rintro s a t ⟨ha, ho, hg, hc⟩ - hs
    obtain ⟨ha', m, hm⟩ := accounted_step ha hs
    exact ⟨ha', orderly_step ho hs, got_step ha.2 hg hs, hc.move hm⟩)
    ⟨Message.fresh_accounted, fun f hf => absurd hf List.not_mem_nil, Nat.zero_le _,
      Deliveries.fresh_counted⟩
  have hhanded := handedOut_le (x := x) horderly
  unfold Deliveries.Broker.Counted at hcounted
  omega

def handedOutTwice : List (Action ℕ) :=
  [.server (.declareQueue "tasks"), .server (.publish "tasks" 3), .iterator 0 "tasks" false,
    .iterate 0 .next, .iterate 0 (.consumed 0), .deliver 0 0 0, .iterate 0 (.onMessage 0),
    .iterate 0 (.got 0), .server (.act 0 0 (.call (.reject true))), .server (.receive 0),
    .iterate 0 .next, .deliver 0 0 0, .iterate 0 (.onMessage 1), .iterate 0 (.got 1)]

theorem handed_out_twice : ∃ s, Run System.step (fun _ _ => True) (fresh 1) handedOutTwice s ∧
    s.handedOut 3 = 2 ∧ s.handedOut 3 ≤
      s.server.published.count 3 + s.server.returned.count 3 + s.server.requeued 3 := by
  obtain ⟨s, hs⟩ : ∃ s, checked System.step (fun _ _ => True) (fresh 1) handedOutTwice = some s :=
    ⟨_, rfl⟩
  have hr := run_of_checked hs
  obtain rfl := Option.some.inj hs
  exact ⟨_, hr, rfl, handed_out_bounded hr⟩

end Runs

end AioPika.Feeds
