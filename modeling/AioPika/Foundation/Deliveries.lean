import AioPika.Foundation.Dict
import AioPika.Foundation.Members

/-! # Deliveries under tags

A broker hands the messages of its queues out on channels, each under the next
tag of its channel, and keeps them until their tags are settled: one by one, or
all up to a tag. What a lost channel owes goes back to the queues, and the tags
of its next epoch start anew.
-/

namespace Deliveries

inductive Verb where
  | ack
  | requeue
  | drop
  deriving DecidableEq, Repr

/-- A settlement of one tag, or of all tags up to it. -/
structure Note where
  tag : ℕ
  multiple : Bool
  verb : Verb
  deriving DecidableEq, Repr

/-- The tags that a settlement is about. -/
def Note.Covers (n : Note) (tag : ℕ) : Prop := tag = n.tag ∨ n.multiple = true ∧ tag ≤ n.tag

instance (n : Note) : DecidablePred n.Covers := fun tag =>
  inferInstanceAs (Decidable (tag = n.tag ∨ n.multiple = true ∧ tag ≤ n.tag))

structure Ready (α : Type) where
  item : α
  redelivered : Bool
  deriving DecidableEq, Repr

/-- A delivery that the broker keeps. -/
structure Owed (κ α : Type) where
  tag : ℕ
  queue : κ
  item : α
  deriving DecidableEq, Repr

/-- A delivery as its receiver knows it. -/
structure Handle (α σ : Type) where
  epoch : ℕ
  tag : ℕ
  item : α
  redelivered : Bool
  /-- The broker has not kept it. -/
  auto : Bool
  state : σ
  deriving DecidableEq, Repr

structure Channel (κ α σ : Type) where
  /-- How often it was lost. -/
  epoch : ℕ
  lastTag : ℕ
  owed : List (Owed κ α)
  handles : List (Handle α σ)
  /-- The settlements that are on their way. -/
  wire : List Note

structure Settled (α : Type) where
  channel : ℕ
  epoch : ℕ
  tag : ℕ
  item : α
  note : Note
  deriving DecidableEq, Repr

structure Broker (κ α σ : Type) where
  published : List α
  queues : Dict κ (List (Ready α))
  channels : List (Channel κ α σ)
  settled : List (Settled α)
  /-- The messages of the deliveries that the broker has not kept. -/
  handedOut : List α
  /-- The messages that came back from lost channels. -/
  returned : List α
  /-- The messages that went with their queues. -/
  discarded : List α
  /-- How many channels were closed for the settlement of a tag that is not owed. -/
  refused : ℕ

/-- What is sent for a delivery, and what the loss of its channel does to it. -/
structure Client (σ : Type) where
  notes : σ → List (Bool × Verb)
  lost : σ → σ
  notes_lost : ∀ x, notes (lost x) = notes x

variable {κ α σ : Type}

def fresh (n : ℕ) : Broker κ α σ where
  published := []
  queues := Dict.empty
  channels := List.replicate n ⟨0, 0, [], [], []⟩
  settled := []
  handedOut := []
  returned := []
  discarded := []
  refused := 0

def Channel.next (client : Client σ) (c : Channel κ α σ) : Channel κ α σ where
  epoch := c.epoch + 1
  lastTag := 0
  owed := []
  handles := c.handles.map fun h => { h with state := client.lost h.state }
  wire := []

namespace Broker

variable [DecidableEq κ] (client : Client σ) (s : Broker κ α σ)

def declare (queue : κ) : Broker κ α σ :=
  if (s.queues.get? queue).isSome = true then s else { s with queues := s.queues.set queue [] }

def enqueue (queue : κ) (x : α) : Option (Broker κ α σ) := do
  let ms ← s.queues.get? queue
  return { s with
    published := s.published ++ [x]
    queues := s.queues.set queue (ms ++ [⟨x, false⟩]) }

def delete (queue : κ) : Option (Broker κ α σ) := do
  let ms ← s.queues.get? queue
  return { s with
    queues := s.queues.pop queue
    discarded := s.discarded ++ ms.map Ready.item }

def expire (queue : κ) (n : ℕ) : Option (Broker κ α σ) := do
  let ms ← s.queues.get? queue
  let m ← ms[n]?
  return { s with
    queues := s.queues.set queue (ms.eraseIdx n)
    discarded := s.discarded ++ [m.item] }

/-- Hand a message out, and keep it. -/
def deliver (p : ℕ) (queue : κ) (n : ℕ) (state : ℕ → Ready α → σ) : Option (Broker κ α σ) := do
  let c ← s.channels[p]?
  let ms ← s.queues.get? queue
  let m ← ms[n]?
  return { s with
    queues := s.queues.set queue (ms.eraseIdx n)
    channels := s.channels.set p { c with
      lastTag := c.lastTag + 1
      owed := c.owed ++ [⟨c.lastTag + 1, queue, m.item⟩]
      handles := c.handles ++
        [⟨c.epoch, c.lastTag + 1, m.item, m.redelivered, false, state (c.lastTag + 1) m⟩] } }

/-- Hand a message out, and forget it. -/
def handOut (p : ℕ) (queue : κ) (n : ℕ) (state : ℕ → Ready α → σ) : Option (Broker κ α σ) := do
  let c ← s.channels[p]?
  let ms ← s.queues.get? queue
  let m ← ms[n]?
  return { s with
    queues := s.queues.set queue (ms.eraseIdx n)
    channels := s.channels.set p { c with
      lastTag := c.lastTag + 1
      handles := c.handles ++
        [⟨c.epoch, c.lastTag + 1, m.item, m.redelivered, true, state (c.lastTag + 1) m⟩] }
    handedOut := s.handedOut ++ [m.item] }

/-- The receiver of a delivery goes on, and may send a settlement of it. -/
def update (p i : ℕ) (c : Channel κ α σ) (h : Handle α σ) (state : σ)
    (sent : Option (Bool × Verb)) : Broker κ α σ :=
  { s with
    channels := s.channels.set p { c with
      handles := c.handles.set i { h with state := state }
      wire := c.wire ++ (sent.map fun x => ⟨h.tag, x.1, x.2⟩).toList } }

def giveBack (o : Owed κ α) : Broker κ α σ :=
  match s.queues.get? o.queue with
  | some ms => { s with queues := s.queues.set o.queue (⟨o.item, true⟩ :: ms) }
  | none => { s with discarded := s.discarded ++ [o.item] }

def drop (p : ℕ) (c : Channel κ α σ) : Broker κ α σ :=
  c.owed.foldl giveBack { s with
    channels := s.channels.set p (c.next client)
    returned := s.returned ++ c.owed.map Owed.item }

def lose (p : ℕ) : Option (Broker κ α σ) := do
  let c ← s.channels[p]?
  return s.drop client p c

/-- The broker gets a settlement of tags that are owed. -/
def settle (p : ℕ) (c : Channel κ α σ) (note : Note) (wire : List Note) : Broker κ α σ :=
  let covered := c.owed.filter fun o => note.Covers o.tag
  let t : Broker κ α σ := { s with
    channels := s.channels.set p { c with
      owed := c.owed.filter fun o => ¬ note.Covers o.tag
      wire := wire }
    settled := s.settled ++ covered.map fun o => ⟨p, c.epoch, o.tag, o.item, note⟩ }
  if note.verb = .requeue then covered.foldl giveBack t else t

def process (p : ℕ) : Option (Broker κ α σ) := do
  let c ← s.channels[p]?
  match c.wire with
  | [] => none
  | note :: wire =>
    if ∃ o ∈ c.owed, o.tag = note.tag then return s.settle p c note wire
    else return { s.drop client p c with refused := s.refused + 1 }

end Broker

/-- What happens to the deliveries; the label is the delivery for which a settlement is sent. -/
inductive Move [DecidableEq κ] (client : Client σ) (s : Broker κ α σ) :
    Option (ℕ × ℕ) → Broker κ α σ → Prop
  | stay : Move client s none s
  | declare {queue : κ} (hq : s.queues.get? queue = none) :
      Move client s none { s with queues := s.queues.set queue [] }
  | enqueue {queue : κ} {x : α} {ms : List (Ready α)} (hq : s.queues.get? queue = some ms) :
      Move client s none { s with
        published := s.published ++ [x]
        queues := s.queues.set queue (ms ++ [⟨x, false⟩]) }
  | delete {queue : κ} {ms : List (Ready α)} (hq : s.queues.get? queue = some ms) :
      Move client s none { s with
        queues := s.queues.pop queue
        discarded := s.discarded ++ ms.map Ready.item }
  | expire {queue : κ} {n : ℕ} {ms : List (Ready α)} {m : Ready α}
      (hq : s.queues.get? queue = some ms) (hm : ms[n]? = some m) :
      Move client s none { s with
        queues := s.queues.set queue (ms.eraseIdx n)
        discarded := s.discarded ++ [m.item] }
  | deliver {p n : ℕ} {queue : κ} {c : Channel κ α σ} {ms : List (Ready α)} {m : Ready α} {x : σ}
      (hp : s.channels[p]? = some c) (hq : s.queues.get? queue = some ms) (hm : ms[n]? = some m)
      (hx : client.notes x = []) :
      Move client s none { s with
        queues := s.queues.set queue (ms.eraseIdx n)
        channels := s.channels.set p { c with
          lastTag := c.lastTag + 1
          owed := c.owed ++ [⟨c.lastTag + 1, queue, m.item⟩]
          handles := c.handles ++
            [⟨c.epoch, c.lastTag + 1, m.item, m.redelivered, false, x⟩] } }
  | handOut {p n : ℕ} {queue : κ} {c : Channel κ α σ} {ms : List (Ready α)} {m : Ready α} {x : σ}
      (hp : s.channels[p]? = some c) (hq : s.queues.get? queue = some ms) (hm : ms[n]? = some m)
      (hx : client.notes x = []) :
      Move client s none { s with
        queues := s.queues.set queue (ms.eraseIdx n)
        channels := s.channels.set p { c with
          lastTag := c.lastTag + 1
          handles := c.handles ++
            [⟨c.epoch, c.lastTag + 1, m.item, m.redelivered, true, x⟩] }
        handedOut := s.handedOut ++ [m.item] }
  | quiet {p i : ℕ} {c : Channel κ α σ} {h : Handle α σ} {x : σ} (hp : s.channels[p]? = some c)
      (hi : c.handles[i]? = some h) (hx : client.notes x = client.notes h.state) :
      Move client s none (s.update p i c h x none)
  | send {p i : ℕ} {c : Channel κ α σ} {h : Handle α σ} {x : σ} {multiple : Bool} {verb : Verb}
      (hp : s.channels[p]? = some c) (hi : c.handles[i]? = some h)
      (hx : client.notes x = client.notes h.state ++ [(multiple, verb)])
      (ha : h.auto = false) (he : h.epoch = c.epoch) :
      Move client s (some (p, i)) (s.update p i c h x (some (multiple, verb)))
  | settle {p : ℕ} {c : Channel κ α σ} {note : Note} {wire : List Note} {o : Owed κ α}
      (hp : s.channels[p]? = some c) (hw : c.wire = note :: wire) (ho : o ∈ c.owed)
      (ht : o.tag = note.tag) :
      Move client s none (s.settle p c note wire)
  | refuse {p : ℕ} {c : Channel κ α σ} {note : Note} {wire : List Note}
      (hp : s.channels[p]? = some c) (hw : c.wire = note :: wire)
      (ho : ∀ o ∈ c.owed, o.tag ≠ note.tag) :
      Move client s none { s.drop client p c with refused := s.refused + 1 }
  | lose {p : ℕ} {c : Channel κ α σ} (hp : s.channels[p]? = some c) :
      Move client s none (s.drop client p c)

section Steps

variable [DecidableEq κ] {client : Client σ} {s t : Broker κ α σ} {p n : ℕ} {queue : κ}

theorem declare_move : Move client s none (s.declare queue) := by
  unfold Broker.declare
  split
  · exact .stay
  · rename_i hq
    exact .declare (Option.not_isSome_iff_eq_none.mp hq)

theorem enqueue_move {x : α} (h : s.enqueue queue x = some t) : Move client s none t := by
  simp only [Broker.enqueue, Option.bind_eq_bind, Option.bind_eq_some_iff, Option.pure_def,
    Option.some.injEq] at h
  obtain ⟨ms, hq, rfl⟩ := h
  exact .enqueue hq

theorem delete_move (h : s.delete queue = some t) : Move client s none t := by
  simp only [Broker.delete, Option.bind_eq_bind, Option.bind_eq_some_iff, Option.pure_def,
    Option.some.injEq] at h
  obtain ⟨ms, hq, rfl⟩ := h
  exact .delete hq

theorem expire_move (h : s.expire queue n = some t) : Move client s none t := by
  simp only [Broker.expire, Option.bind_eq_bind, Option.bind_eq_some_iff, Option.pure_def,
    Option.some.injEq] at h
  obtain ⟨ms, hq, m, hm, rfl⟩ := h
  exact .expire hq hm

theorem deliver_move {state : ℕ → Ready α → σ} (hx : ∀ tag m, client.notes (state tag m) = [])
    (h : s.deliver p queue n state = some t) : Move client s none t := by
  simp only [Broker.deliver, Option.bind_eq_bind, Option.bind_eq_some_iff, Option.pure_def,
    Option.some.injEq] at h
  obtain ⟨c, hp, ms, hq, m, hm, rfl⟩ := h
  exact .deliver hp hq hm (hx _ _)

theorem handOut_move {state : ℕ → Ready α → σ} (hx : ∀ tag m, client.notes (state tag m) = [])
    (h : s.handOut p queue n state = some t) : Move client s none t := by
  simp only [Broker.handOut, Option.bind_eq_bind, Option.bind_eq_some_iff, Option.pure_def,
    Option.some.injEq] at h
  obtain ⟨c, hp, ms, hq, m, hm, rfl⟩ := h
  exact .handOut hp hq hm (hx _ _)

theorem lose_move (h : s.lose client p = some t) : Move client s none t := by
  simp only [Broker.lose, Option.bind_eq_bind, Option.bind_eq_some_iff, Option.pure_def,
    Option.some.injEq] at h
  obtain ⟨c, hp, rfl⟩ := h
  exact .lose hp

theorem process_move (h : s.process client p = some t) : Move client s none t := by
  simp only [Broker.process, Option.bind_eq_bind, Option.bind_eq_some_iff, Option.pure_def] at h
  obtain ⟨c, hp, h⟩ := h
  split at h
  · cases h
  · rename_i note wire hw
    split at h
    · rename_i ho
      obtain ⟨o, ho, ht⟩ := ho
      obtain rfl := Option.some.inj h
      exact .settle hp hw ho ht
    · rename_i ho
      obtain rfl := Option.some.inj h
      exact .refuse hp hw fun o hmem he => ho ⟨o, hmem, he⟩

end Steps

end Deliveries
