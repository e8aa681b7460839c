import AioPika.Foundation.Settlements
import AioPika.Message.Settlement

/-! # The messages of channels

The messages that are delivered on underlay channels, to consumers or by `get`,
are settled by any number of tasks: the broker gets the frames of a channel in
the order in which they were sent. A message keeps the underlay channel on which
it was delivered; when that is lost, its settlements raise.
-/

namespace AioPika.Message

open Deliveries (Client Channel Handle Note Verb Settled Sound Clean)

/-- An incoming message, and what was done with it. -/
structure Incoming where
  message : IncomingMessage
  state : State
  deriving DecidableEq, Repr

/-- What a frame asks of the broker. -/
def Frame.note : Frame → Bool × Verb
  | .ack multiple => (multiple, .ack)
  | .reject requeue => (false, if requeue then .requeue else .drop)
  | .nack multiple requeue => (multiple, if requeue then .requeue else .drop)

def Incoming.lost (x : Incoming) : Incoming :=
  { x with state := { x.state with channelClosed := true } }

def client : Client Incoming where
  notes x := x.state.frames.map Frame.note
  lost := Incoming.lost
  notes_lost _ := rfl

abbrev Server (α : Type) := Deliveries.Broker String α Incoming

inductive ChannelAction (α : Type) where
  | declareQueue (queue : String)
  | deleteQueue (queue : String)
  | publish (queue : String) (item : α)
  | expire (queue : String) (n : ℕ)
  /-- A consumer, or `get`, gets a message. -/
  | deliver (channel : ℕ) (queue : String) (n : ℕ) (noAck : Bool)
  /-- A call of the user, an exit of `process()`, or the end of an await. -/
  | act (channel message : ℕ) (action : Action)
  /-- The broker gets the next frame of a channel. -/
  | receive (channel : ℕ)
  /-- An underlay channel is lost, and the next one is opened. -/
  | lost (channel : ℕ)
  deriving DecidableEq, Repr

variable {α : Type} (basicNack : Bool)

/-- `IncomingMessage(message, no_ack)` -/
def incoming (noAck : Bool) (tag : ℕ) (redelivered : Bool) : Incoming :=
  let message : IncomingMessage := ⟨noAck, some tag, redelivered, basicNack⟩
  ⟨message, fresh message⟩

def sentFrame (s t : State) : Option Frame := (t.frames.drop s.frames.length).head?

def channelStep (s : Server α) : ChannelAction α → Option (Server α)
  | .declareQueue queue => some (s.declare queue)
  | .deleteQueue queue => s.delete queue
  | .publish queue item => s.enqueue queue item
  | .expire queue n => s.expire queue n
  | .deliver p queue n true =>
    s.handOut p queue n fun tag m => incoming basicNack true tag m.redelivered
  | .deliver p queue n false =>
    s.deliver p queue n fun tag m => incoming basicNack false tag m.redelivered
  | .act _ _ .channelClosed => none
  | .act p i a => do
    let c ← s.channels[p]?
    let h ← c.handles[i]?
    let t ← step h.state.message h.state.state a
    return s.update p i c h ⟨h.state.message, t⟩ ((sentFrame h.state.state t).map Frame.note)
  | .receive p => s.process client p
  | .lost p => s.lose client p

/-- The message is that of its delivery, and its channel is open as long as the epoch lasts. -/
structure Linked (epoch : ℕ) (h : Handle α Incoming) : Prop where
  noAck : h.state.message.noAck = h.auto
  tag : h.state.message.deliveryTag = some h.tag
  pos : 0 < h.tag
  channel : h.epoch = epoch ↔ h.state.state.channelClosed = false
  processed : h.auto = true → h.state.state.frames = []

def Sends (x : Incoming) (a : Action) : Prop :=
  ∃ t ∈ step x.message x.state a, t.frames ≠ x.state.frames

instance (x : Incoming) : DecidablePred (Sends x) := fun a =>
  inferInstanceAs (Decidable (∃ t ∈ step x.message x.state a, t.frames ≠ x.state.frames))

/-- A frame is sent for a message only if no frame that was sent for the messages of its underlay
channel covers it. -/
def Acceptable (s : Server α) : ChannelAction α → Prop
  | .act p i a => ∀ c ∈ s.channels[p]?, ∀ h ∈ c.handles[i]?, Sends h.state a →
      c.Untouched client h.tag
  | _ => True

variable {message : IncomingMessage} {s t : State} {a : Action} {frame : Frame}

/-- A call sends one frame at most, and none for a message that is processed or needs no
acknowledgement, or whose channel is lost. -/
theorem frames_call : (s.call message frame).channelClosed = s.channelClosed ∧
    ((s.call message frame).frames = s.frames ∨
      (message.noAck = false ∧ s.processed = false ∧ s.channelClosed = false) ∧
        (s.call message frame).frames = s.frames ++ [frame]) := by
  have hsettle : ∀ text, (s.settle message frame text).channelClosed = s.channelClosed ∧
      ((s.settle message frame text).frames = s.frames ∨
        (message.noAck = false ∧ s.processed = false ∧ s.channelClosed = false) ∧
          (s.settle message frame text).frames = s.frames ++ [frame]) := by
    intro text
    unfold State.settle
    split
    · exact ⟨rfl, Or.inl rfl⟩
    · rename_i hack
      split
      · exact ⟨rfl, Or.inl rfl⟩
      · rename_i hp
        split
        · split
          · exact ⟨rfl, Or.inl rfl⟩
          · rename_i hc
            have hguard :
                message.noAck = false ∧ s.processed = false ∧ s.channelClosed = false := by
              simp_all
            exact ⟨rfl, Or.inr ⟨hguard, rfl⟩⟩
        · exact ⟨rfl, Or.inl rfl⟩
  cases frame with
  | ack multiple => exact hsettle _
  | reject requeue => exact hsettle _
  | nack multiple requeue =>
    simp only [State.call, State.nack]
    split
    · exact ⟨rfl, Or.inl rfl⟩
    · split
      · exact ⟨rfl, Or.inl rfl⟩
      · exact hsettle _

theorem exit_single {context : ProcessContext} {raised : Bool}
    (he : context.exit message s raised = .ok (some frame)) : frame.note.1 = false := by
  unfold ProcessContext.exit at he
  split at he
  · split at he
    · cases he
      rfl
    · cases he
  · split at he
    · split at he
      · split at he
        · cases he
        · cases he
          rfl
      · split at he
        · cases he
        · cases he
          rfl
    · cases he

def Action.MaySend : Action → Frame → Prop
  | .call f, frame => f = frame
  | .exit _ _, frame => frame.note.1 = false
  | _, _ => False

theorem frames_step (ha : a ≠ .channelClosed) (hs : step message s a = some t) :
    t.channelClosed = s.channelClosed ∧ (t.frames = s.frames ∨
      (message.noAck = false ∧ s.processed = false ∧ s.channelClosed = false) ∧
        ∃ frame, a.MaySend frame ∧ t.frames = s.frames ++ [frame]) := by
  cases a with
  | call frame =>
    obtain rfl := Option.some.inj hs
    obtain ⟨hclosed, hframes⟩ := @frames_call message s frame
    exact ⟨hclosed, hframes.imp_right fun ⟨hguard, hf⟩ => ⟨hguard, frame, rfl, hf⟩⟩
  | exit context raised =>
    simp only [step] at hs
    split at hs
    · rename_i frame he
      obtain rfl := Option.some.inj hs
      obtain ⟨hclosed, hframes⟩ := @frames_call message s frame
      exact ⟨hclosed, hframes.imp_right fun ⟨hguard, hf⟩ => ⟨hguard, frame, exit_single he, hf⟩⟩
    · obtain rfl := Option.some.inj hs
      exact ⟨rfl, Or.inl rfl⟩
    · obtain rfl := Option.some.inj hs
      exact ⟨rfl, Or.inl rfl⟩
  | sent i | failed i =>
    simp only [step] at hs
    split at hs
    · obtain rfl := Option.some.inj hs
      exact ⟨rfl, Or.inl rfl⟩
    · cases hs
  | channelClosed => exact absurd rfl ha

theorem sentFrame_same (h : t.frames = s.frames) : sentFrame s t = none := by
  simp [sentFrame, h]

theorem sentFrame_append (h : t.frames = s.frames ++ [frame]) : sentFrame s t = some frame := by
  simp [sentFrame, h]

section Steps

variable {basicNack} {b b' : Server α} {e : ChannelAction α} {x : Incoming}
  {c : Channel String α Incoming} {h : Handle α Incoming}

theorem act_cases {p i : ℕ} (hs : channelStep basicNack b (.act p i a) = some b') :
    ∃ c h t, a ≠ .channelClosed ∧ b.channels[p]? = some c ∧ c.handles[i]? = some h ∧
      step h.state.message h.state.state a = some t ∧
      b' = b.update p i c h ⟨h.state.message, t⟩ ((sentFrame h.state.state t).map Frame.note) := by
  have hne : a ≠ .channelClosed := by
    rintro rfl
    cases hs
  have hstep : channelStep basicNack b (.act p i a) = (do
      let c ← b.channels[p]?
      let h ← c.handles[i]?
      let t ← step h.state.message h.state.state a
      return b.update p i c h ⟨h.state.message, t⟩
        ((sentFrame h.state.state t).map Frame.note)) := by
    cases a with
    | channelClosed => exact absurd rfl hne
    | _ => rfl
  rw [hstep] at hs
  simp only [Option.bind_eq_bind, Option.bind_eq_some_iff, Option.pure_def,
    Option.some.injEq] at hs
  obtain ⟨c, hp, h, hi, t, ht, rfl⟩ := hs
  exact ⟨c, h, t, hne, hp, hi, ht, rfl⟩

theorem each_step {P : ℕ → Handle α Incoming → Prop} (he : b.Each (fun _ _ => True) P)
    (hnew : ∀ epoch tag item redelivered noAck, P epoch ⟨epoch, tag + 1, item, redelivered, noAck,
      incoming basicNack noAck (tag + 1) redelivered⟩)
    (hlost : ∀ c ∈ b.channels, ∀ h ∈ c.handles,
      P (c.epoch + 1) { h with state := h.state.lost })
    (hact : ∀ p i a c h t, e = .act p i a → a ≠ .channelClosed → b.channels[p]? = some c →
      c.handles[i]? = some h → step h.state.message h.state.state a = some t →
        P c.epoch { h with state := ⟨h.state.message, t⟩ })
    (hs : channelStep basicNack b e = some b') : b'.Each (fun _ _ => True) P := by
  cases e with
  | declareQueue queue =>
    obtain rfl := Option.some.inj hs
    exact he.declare
  | deleteQueue queue => exact he.delete hs
  | publish queue item => exact he.enqueue trivial hs
  | expire queue n => exact he.expire hs
  | deliver p queue n noAck =>
    cases noAck with
    | true =>
      have hs : b.handOut p queue n (fun tag m => incoming basicNack true tag m.redelivered) =
        some b' := hs
      exact he.handOut (fun c _ m _ => hnew c.epoch c.lastTag m.item m.redelivered true) hs
    | false =>
      have hs : b.deliver p queue n (fun tag m => incoming basicNack false tag m.redelivered) =
        some b' := hs
      exact he.deliver (fun c _ m _ => hnew c.epoch c.lastTag m.item m.redelivered false) hs
  | act p i a =>
    obtain ⟨c, h, t, ha, hp, hi, ht, rfl⟩ := act_cases hs
    exact he.update hp (hact p i a c h t rfl ha hp hi ht)
  | receive p => exact he.process hlost hs
  | lost p => exact he.lose hlost hs

/-- The messages of every channel are linked. -/
def Connected (b : Server α) : Prop := b.Each (fun _ _ => True) Linked

theorem connected_step (hsound : Sound client b) (hl : Connected b)
    (hs : channelStep basicNack b e = some b') : Connected b' := by
  refine each_step hl (fun epoch tag item redelivered noAck => ?_) (fun c hc h hh => ?_)
    (fun p i a c h t _ ha hp hi ht => ?_) hs
  · exact ⟨rfl, rfl, Nat.succ_pos tag, iff_of_true rfl rfl, fun _ => rfl⟩
  · have hlinked := hl.handles c hc h hh
    have hne : h.epoch ≠ c.epoch + 1 := by
      have hle := (hsound.channels c hc).epochs h hh
      omega
    exact ⟨hlinked.noAck, hlinked.tag, hlinked.pos, iff_of_false hne nofun, hlinked.processed⟩
  · have hlinked := hl.handles c (List.mem_of_getElem? hp) h (List.mem_of_getElem? hi)
    obtain ⟨hclosed, hframes⟩ := frames_step ha ht
    refine ⟨hlinked.noAck, hlinked.tag, hlinked.pos, ?_, fun hauto => ?_⟩
    · simp only [hclosed]
      exact hlinked.channel
    · rcases hframes with hframes | ⟨⟨hack, -⟩, -⟩
      · exact hframes.trans (hlinked.processed hauto)
      · rw [← hlinked.noAck, hack] at hauto
        cases hauto

/-- A step of the messages is one of the deliveries. -/
theorem channelStep_move (hl : Connected b) (hs : channelStep basicNack b e = some b') :
    ∃ m, Deliveries.Move client b m b' ∧ (Acceptable b e ↔ ∀ p i, m = some (p, i) →
      ∀ c ∈ b.channels[p]?, ∀ h ∈ c.handles[i]?, c.Untouched client h.tag) := by
  have hnotes : ∀ noAck tag (m : Deliveries.Ready α),
      client.notes (incoming basicNack noAck tag m.redelivered) = [] := fun _ _ _ => rfl
  cases e with
  | declareQueue queue =>
    obtain rfl := Option.some.inj hs
    exact ⟨none, Deliveries.declare_move, by simp [Acceptable]⟩
  | deleteQueue queue => exact ⟨none, Deliveries.delete_move hs, by simp [Acceptable]⟩
  | publish queue item => exact ⟨none, Deliveries.enqueue_move hs, by simp [Acceptable]⟩
  | expire queue n => exact ⟨none, Deliveries.expire_move hs, by simp [Acceptable]⟩
  | deliver p queue n noAck =>
    cases noAck with
    | true => exact ⟨none, Deliveries.handOut_move (hnotes true) hs, by simp [Acceptable]⟩
    | false => exact ⟨none, Deliveries.deliver_move (hnotes false) hs, by simp [Acceptable]⟩
  | act p i a =>
    obtain ⟨c, h, t, ha, hp, hi, ht, rfl⟩ := act_cases hs
    have hlinked := hl.handles c (List.mem_of_getElem? hp) h (List.mem_of_getElem? hi)
    have hiff : Acceptable b (.act p i a) ↔ (Sends h.state a → c.Untouched client h.tag) := by
      simp [Acceptable, hp, hi]
    rw [hiff]
    obtain ⟨-, hframes | ⟨⟨hack, -, hopen⟩, frame, -, hframes⟩⟩ := frames_step ha ht
    · have hnot : ¬ Sends h.state a := by
        rintro ⟨t', ht', hne⟩
        obtain rfl := Option.some.inj (ht.symm.trans ht')
        exact hne hframes
      rw [sentFrame_same hframes]
      refine ⟨none, .quiet hp hi ?_, by simp [hnot]⟩
      simp [client, hframes]
    · have hsends : Sends h.state a := ⟨t, ht, by simp [hframes]⟩
      rw [sentFrame_append hframes]
      refine ⟨some (p, i), .send hp hi ?_ ?_ (hlinked.channel.mpr hopen), ?_⟩
      · change t.frames.map Frame.note = h.state.state.frames.map Frame.note ++ [frame.note]
        rw [hframes, List.map_append, List.map_singleton]
      · rw [← hlinked.noAck, hack]
      · simp [hsends, hp, hi]
  | receive p => exact ⟨none, Deliveries.process_move hs, by simp [Acceptable]⟩
  | lost p => exact ⟨none, Deliveries.lose_move hs, by simp [Acceptable]⟩

/-- What a step leaves of a channel: its deliveries stay, and only that of an action goes on. -/
structure Stays (e : ChannelAction α) (p : ℕ) (c c' : Channel String α Incoming) : Prop where
  epoch : c.epoch ≤ c'.epoch
  handles : ∀ i h, c.handles[i]? = some h → ∃ h', c'.handles[i]? = some h' ∧
    h'.epoch = h.epoch ∧ h'.auto = h.auto ∧ h'.item = h.item ∧ h'.tag = h.tag ∧
    h'.state.message = h.state.message ∧ (c'.epoch = c.epoch → (∀ a, e ≠ .act p i a) → h' = h)

theorem Stays.append {p : ℕ} {c' : Channel String α Incoming} {hs : List (Handle α Incoming)}
    (he : c'.epoch = c.epoch) (hc : c'.handles = c.handles ++ hs) : Stays e p c c' where
  epoch := Nat.le_of_eq he.symm
  handles i h hi := by
    refine ⟨h, ?_, rfl, rfl, rfl, rfl, rfl, fun _ _ => rfl⟩
    rw [hc]
    exact (List.getElem?_append_left (List.getElem?_eq_some_iff.mp hi).1).trans hi

theorem Stays.refl {p : ℕ} : Stays e p c c := .append rfl (List.append_nil _).symm

theorem Stays.next {p : ℕ} : Stays e p c (c.next client) where
  epoch := Nat.le_succ _
  handles i h hi := by
    refine ⟨{ h with state := h.state.lost }, ?_, rfl, rfl, rfl, rfl, rfl, fun hne => ?_⟩
    · simp only [Channel.next, List.getElem?_map, hi]
      rfl
    · have hne : c.epoch + 1 = c.epoch := hne
      omega

theorem Stays.of_set {p q : ℕ} {c₀ c₁ : Channel String α Incoming} (hq : b.channels[q]? = some c₀)
    (hb : b'.channels = b.channels.set q c₁) (hs : Stays e q c₀ c₁) (hp : b.channels[p]? = some c) :
    ∃ c', b'.channels[p]? = some c' ∧ Stays e p c c' := by
  rw [hb]
  by_cases hpq : q = p
  · subst hpq
    obtain rfl := Option.some.inj (hq.symm.trans hp)
    exact ⟨c₁, List.getElem?_set_self (List.getElem?_eq_some_iff.mp hq).1, hs⟩
  · exact ⟨c, (List.getElem?_set_ne hpq).trans hp, .refl⟩

theorem delivered_cases {p n : ℕ} {queue : String} {noAck : Bool}
    (hs : channelStep basicNack b (.deliver p queue n noAck) = some b') :
    ∃ c c' ms m, b.channels[p]? = some c ∧ b.queues.get? queue = some ms ∧ ms[n]? = some m ∧
      b'.channels = b.channels.set p c' ∧ c'.epoch = c.epoch ∧ c'.handles = c.handles ++
        [⟨c.epoch, c.lastTag + 1, m.item, m.redelivered, noAck,
          incoming basicNack noAck (c.lastTag + 1) m.redelivered⟩] := by
  cases noAck with
  | true =>
    simp only [channelStep, Deliveries.Broker.handOut, Option.bind_eq_bind,
      Option.bind_eq_some_iff, Option.pure_def, Option.some.injEq] at hs
    obtain ⟨c, hp, ms, hq, m, hm, rfl⟩ := hs
    exact ⟨c, _, ms, m, hp, hq, hm, rfl, rfl, rfl⟩
  | false =>
    simp only [channelStep, Deliveries.Broker.deliver, Option.bind_eq_bind,
      Option.bind_eq_some_iff, Option.pure_def, Option.some.injEq] at hs
    obtain ⟨c, hp, ms, hq, m, hm, rfl⟩ := hs
    exact ⟨c, _, ms, m, hp, hq, hm, rfl, rfl, rfl⟩

theorem channelStep_stays {p : ℕ} (hs : channelStep basicNack b e = some b')
    (hp : b.channels[p]? = some c) : ∃ c', b'.channels[p]? = some c' ∧ Stays e p c c' := by
  have hsame : b'.channels = b.channels → ∃ c', b'.channels[p]? = some c' ∧ Stays e p c c' :=
    fun he => ⟨c, he ▸ hp, .refl⟩
  cases e with
  | declareQueue queue =>
    obtain rfl := Option.some.inj hs
    apply hsame
    unfold Deliveries.Broker.declare
    split <;> rfl
  | deleteQueue queue =>
    simp only [channelStep, Deliveries.Broker.delete, Option.bind_eq_bind,
      Option.bind_eq_some_iff, Option.pure_def, Option.some.injEq] at hs
    obtain ⟨ms, hq, rfl⟩ := hs
    exact hsame rfl
  | publish queue item =>
    simp only [channelStep, Deliveries.Broker.enqueue, Option.bind_eq_bind,
      Option.bind_eq_some_iff, Option.pure_def, Option.some.injEq] at hs
    obtain ⟨ms, hq, rfl⟩ := hs
    exact hsame rfl
  | expire queue n =>
    simp only [channelStep, Deliveries.Broker.expire, Option.bind_eq_bind,
      Option.bind_eq_some_iff, Option.pure_def, Option.some.injEq] at hs
    obtain ⟨ms, hq, m, hm, rfl⟩ := hs
    exact hsame rfl
  | deliver q queue n noAck =>
    obtain ⟨c₀, c₁, ms, m, hq, -, -, hb, he, hc⟩ := delivered_cases hs
    exact Stays.of_set hq hb (.append he hc) hp
  | act q j a =>
    obtain ⟨c₀, h, t, ha, hq, hj, ht, rfl⟩ := act_cases hs
    refine Stays.of_set hq rfl ⟨Nat.le_refl _, fun i h' hi => ?_⟩ hp
    simp only [List.getElem?_set]
    split
    · rename_i hji
      subst hji
      obtain rfl := Option.some.inj (hj.symm.trans hi)
      rw [if_pos (List.getElem?_eq_some_iff.mp hj).1]
      exact ⟨_, rfl, rfl, rfl, rfl, rfl, rfl, fun _ hne => absurd rfl (hne a)⟩
    · exact ⟨h', hi, rfl, rfl, rfl, rfl, rfl, fun _ _ => rfl⟩
  | receive q =>
    simp only [channelStep, Deliveries.Broker.process, Option.bind_eq_bind,
      Option.bind_eq_some_iff, Option.pure_def] at hs
    obtain ⟨c₀, hq, hs⟩ := hs
    split at hs
    · cases hs
    · split at hs
      · obtain rfl := Option.some.inj hs
        exact Stays.of_set hq Deliveries.settle_channels (.append rfl (List.append_nil _).symm) hp
      · obtain rfl := Option.some.inj hs
        exact Stays.of_set hq Deliveries.drop_channels Stays.next hp
  | lost q =>
    simp only [channelStep, Deliveries.Broker.lose, Option.bind_eq_bind,
      Option.bind_eq_some_iff, Option.pure_def, Option.some.injEq] at hs
    obtain ⟨c₀, hq, rfl⟩ := hs
    exact Stays.of_set hq Deliveries.drop_channels Stays.next hp

/-- What holds in every run: the tags are known, and the messages are those of their deliveries. -/
def Accounted (b : Server α) : Prop := Sound client b ∧ Connected b

theorem accounted_step (h : Accounted b) (hs : channelStep basicNack b e = some b') :
    Accounted b' := by
  obtain ⟨m, hm, -⟩ := channelStep_move h.2 hs
  exact ⟨h.1.move hm, connected_step h.1 h.2 hs⟩

theorem fresh_accounted {n : ℕ} : Accounted (Deliveries.fresh n : Server α) :=
  ⟨Deliveries.fresh_sound, Deliveries.fresh_each⟩

end Steps

open Transition

/-- The broker has refused no frame, and will refuse none that is on its way, exactly if every frame
is sent for a message that no frame for the messages of its underlay channel covers. -/
theorem accepted_iff {n : ℕ} {es : List (ChannelAction α)} :
    Throughout (channelStep basicNack) Clean (Deliveries.fresh n) es ↔
      EachStep (channelStep basicNack) Acceptable (Deliveries.fresh n) es := by
  refine throughout_iff_eachStep (J := Accounted) (fun b e b' h _ hs _ => accounted_step h hs)
    (fun b e b' h hc hs => ?_) fresh_accounted Deliveries.fresh_clean
  obtain ⟨m, hm, hiff⟩ := channelStep_move h.2 hs
  exact (hc.move h.1 hm).trans hiff.symm

/-- What a frame asks about its message. -/
structure AskedFor (b : Server α) (r : Settled α) : Prop where
  delivery : ∃ c ∈ b.channels[r.channel]?, ∃ h ∈ c.handles,
    h.epoch = r.epoch ∧ h.state.message.deliveryTag = some r.tag ∧ h.item = r.item
  frame : ∃ c ∈ b.channels[r.channel]?, ∃ h ∈ c.handles, h.epoch = r.epoch ∧
    h.state.message.deliveryTag = some r.note.tag ∧
      ∃ f ∈ h.state.state.frames, f.note = (r.note.multiple, r.note.verb)
  covers : r.tag = r.note.tag ∨ r.note.multiple = true ∧ r.tag ≤ r.note.tag

/-- In every run, what the broker settles is a delivery of an underlay channel that a message of the
same channel has sent a frame for: its own message, or a later one with `multiple`. No delivery is
settled twice. -/
theorem settled_as_asked {basicNack : Bool} {n : ℕ} {es : List (ChannelAction α)}
    {b : Server α}
    (hr : Run (channelStep basicNack) (fun _ _ => True) (Deliveries.fresh n) es b) :
    (∀ r ∈ b.settled, AskedFor b r) ∧ (b.settled.map Settled.key).Nodup := by
  obtain ⟨hsound, hl⟩ : Accounted b :=
    hr.invariant (fun _ _ _ h _ hs => accounted_step h hs) fresh_accounted
  refine ⟨fun r hmem => ?_, hsound.once⟩
  obtain ⟨c, hc, hasked⟩ := hsound.asked r hmem
  have htag : ∀ h ∈ c.handles, h.state.message.deliveryTag = some h.tag :=
    fun h hh => (hl.handles c (List.mem_of_getElem? hc) h hh).tag
  constructor
  · obtain ⟨h, hh, he, ht, hitem⟩ := hasked.delivery
    exact ⟨c, hc, h, hh, he, ht ▸ htag h hh, hitem⟩
  · obtain ⟨h, hh, he, hn⟩ := hasked.note
    obtain ⟨x, hx, hn⟩ := List.mem_map.mp hn
    obtain ⟨f, hf, rfl⟩ := List.mem_map.mp hx
    rw [← hn]
    exact ⟨c, hc, h, hh, he, htag h hh, f, hf, rfl⟩
  · exact hasked.covers

/-- Two messages are delivered, and the second one is acknowledged with `multiple`. -/
def twoDelivered : List (ChannelAction ℕ) :=
  [.declareQueue "tasks", .publish "tasks" 3, .publish "tasks" 4, .deliver 0 "tasks" 0 false,
    .deliver 0 "tasks" 0 false]

theorem both_acked : ∃ b, Run (channelStep true) (fun _ _ => True) (Deliveries.fresh 1)
    (twoDelivered ++ [.act 0 1 (.call (.ack true)), .receive 0]) b ∧
    (b.settled.map Settled.item = [3, 4]) ∧ ∀ r ∈ b.settled, AskedFor b r := by
  obtain ⟨b, hb⟩ : ∃ b, checked (channelStep true) (fun _ _ => True) (Deliveries.fresh 1)
    (twoDelivered ++ [.act 0 1 (.call (.ack true)), .receive 0]) = some b := ⟨_, rfl⟩
  have hr := run_of_checked hb
  obtain rfl := Option.some.inj hb
  exact ⟨_, hr, rfl, (settled_as_asked hr).1⟩

/-- The first message is covered then, and the frame that acknowledges it closes the channel. -/
example : (checked (channelStep true) (fun _ _ => True) (Deliveries.fresh 1) (twoDelivered ++
    [.act 0 1 (.call (.ack true)), .act 0 0 (.call (.ack false)), .receive 0, .receive 0])).map
      Deliveries.Broker.refused = some 1 := rfl

/-- A message is settled by one task, alone, and not together with others; as long as its channel
lasts, its sends succeed. -/
def Polite (x : Incoming) : Action → Prop
  | .call frame => frame.note.1 = false ∧ (x.state.processed = false → Quiet x.state)
  | .exit _ _ => x.state.processed = false → Quiet x.state
  | .sent _ => True
  | .failed _ | .channelClosed => False

instance (s : State) : Decidable (Quiet s) :=
  inferInstanceAs (Decidable (∀ c ∈ s.calls, c.pc ≠ .sending))

instance (x : Incoming) : DecidablePred (Polite x)
  | .call frame =>
    inferInstanceAs (Decidable (frame.note.1 = false ∧ (x.state.processed = false → Quiet x.state)))
  | .exit _ _ => inferInstanceAs (Decidable (x.state.processed = false → Quiet x.state))
  | .sent _ => .isTrue trivial
  | .failed _ | .channelClosed => .isFalse id

/-- Everything is polite for the messages of lost channels. -/
def Politely (b : Server α) : ChannelAction α → Prop
  | .act p i a => ∀ c ∈ b.channels[p]?, ∀ h ∈ c.handles[i]?,
      h.state.state.channelClosed = false → Polite h.state a
  | _ => True

instance (b : Server α) : DecidablePred (Politely b)
  | .act p i a => inferInstanceAs (Decidable (∀ c ∈ b.channels[p]?, ∀ h ∈ c.handles[i]?,
      h.state.state.channelClosed = false → Polite h.state a))
  | .declareQueue _ | .deleteQueue _ | .publish _ _ | .expire _ _ | .deliver _ _ _ _
  | .receive _ | .lost _ => .isTrue trivial

/-- A message whose frames are about its own tag, with the invariant of its settlement. -/
def Tidy (x : Incoming) : Prop :=
  x.message.noAck = false → x.state.channelClosed = false →
    Inv x.state ∧ ∀ f ∈ x.state.frames, f.note.1 = false

section Politeness

variable {basicNack : Bool} {b b' : Server α} {e : ChannelAction α} {x : Incoming}

theorem tidy_step (htag : x.message.deliveryTag.getD 0 ≠ 0)
    (hp : x.state.channelClosed = false → Polite x a) (hx : Tidy x) (ha : a ≠ .channelClosed)
    (hs : step x.message x.state a = some t) : Tidy ⟨x.message, t⟩ := by
  intro hack hopen
  obtain ⟨hclosed, hframes⟩ := frames_step ha hs
  have hxopen : x.state.channelClosed = false := hclosed ▸ hopen
  have hpolite := hp hxopen
  obtain ⟨hinv, hsingle⟩ := hx hack hxopen
  constructor
  · refine inv_step hack htag ?_ hinv hs
    cases a with
    | failed | channelClosed => exact hpolite
    | _ => trivial
  · rcases hframes with hframes | ⟨-, frame, hsend, hframes⟩
    · rw [hframes]
      exact hsingle
    · rw [hframes]
      intro f hf
      rcases List.mem_append.mp hf with hf | hf
      · exact hsingle f hf
      · obtain rfl := List.mem_singleton.mp hf
        cases a with
        | call f' =>
          obtain rfl : f' = f := hsend
          exact hpolite.1
        | exit => exact hsend
        | _ => exact hsend.elim

theorem Tidy.unsent (hx : Tidy x) (hack : x.message.noAck = false)
    (hopen : x.state.channelClosed = false) (hproc : x.state.processed = false)
    (hp : Polite x a) (hf : a.MaySend frame) : x.state.frames = [] := by
  refine (hx hack hopen).1.unsent hproc ?_
  cases a with
  | call => exact hp.2 hproc
  | exit => exact hp hproc
  | _ => exact hf.elim

def Mannerly (b : Server α) : Prop :=
  b.Each (fun _ _ => True) fun _ h => Tidy h.state

theorem mannerly_step (hl : Connected b) (hm : Mannerly b) (hp : Politely b e)
    (hs : channelStep basicNack b e = some b') : Mannerly b' := by
  refine each_step hm (fun _ _ _ _ _ _ _ => ⟨fresh_inv, fun _ hf => absurd hf List.not_mem_nil⟩)
    (fun _ _ _ _ _ hopen => (by cases hopen)) (fun p i a c h t he ha hc hi ht => ?_) hs
  subst he
  have hmem := List.mem_of_getElem? hc
  have hlinked := hl.handles c hmem h (List.mem_of_getElem? hi)
  have htag : h.state.message.deliveryTag.getD 0 ≠ 0 := by
    rw [hlinked.tag]
    exact Nat.ne_of_gt hlinked.pos
  exact tidy_step htag (hp c hc h hi) (hm.handles c hmem h (List.mem_of_getElem? hi)) ha ht

theorem notes_single (ha : Accounted b) (hm : Mannerly b) {c : Channel String α Incoming}
    (hc : c ∈ b.channels) : ∀ h ∈ c.handles, h.epoch = c.epoch →
      ∀ x ∈ client.notes h.state, x.1 = false := by
  intro h hh he x hx
  obtain ⟨f, hf, rfl⟩ := List.mem_map.mp hx
  have hlinked := ha.2.handles c hc h hh
  have hack : h.state.message.noAck = false := by
    by_contra hne
    have hnil := hlinked.processed (by simpa [hlinked.noAck] using hne)
    rw [hnil] at hf
    cases hf
  exact (hm.handles c hc h hh hack (hlinked.channel.mp he)).2 f hf

/-- What is done politely is acceptable. -/
theorem acceptable_of_politely (ha : Accounted b) (hm : Mannerly b) (hp : Politely b e)
    (hs : channelStep basicNack b e = some b') : Acceptable b e := by
  cases e with
  | act p i a =>
    rintro c hc h hi ⟨t, ht, hne⟩
    obtain ⟨-, -, -, hclosed, -⟩ := act_cases hs
    obtain ⟨hl, hframes⟩ := frames_step hclosed ht
    rcases hframes with hframes | ⟨⟨hack, hproc, hopen⟩, frame, hsend, -⟩
    · exact absurd hframes hne
    have hmem := List.mem_of_getElem? hc
    have hmemi := List.mem_of_getElem? hi
    have hunsent := (hm.handles c hmem h hmemi).unsent hack hopen hproc (hp c hc h hi hopen) hsend
    exact (ha.1.channels c hmem).untouched hi ((ha.2.handles c hmem h hmemi).channel.mpr hopen)
      (by simp [client, hunsent]) (notes_single ha hm hmem)
  | _ => trivial

structure Smooth (b : Server α) : Prop where
  accounted : Accounted b
  mannerly : Mannerly b
  clean : Clean b

theorem smooth_step (h : Smooth b) (hp : Politely b e) (hs : channelStep basicNack b e = some b') :
    Smooth b' := by
  obtain ⟨m, hmove, hiff⟩ := channelStep_move h.accounted.2 hs
  have hacceptable := acceptable_of_politely h.accounted h.mannerly hp hs
  constructor
  · exact accounted_step h.accounted hs
  · exact mannerly_step h.accounted.2 h.mannerly hp hs
  · exact (h.clean.move h.accounted.1 hmove).mpr (hiff.mp hacceptable)

theorem fresh_smooth {n : ℕ} : Smooth (Deliveries.fresh n : Server α) :=
  ⟨fresh_accounted, Deliveries.fresh_each, Deliveries.fresh_clean⟩

/-- As long as every message is settled by one task alone, nothing that is sent for it is refused,
whatever else happens on its channel and on the others. -/
theorem polite_accepted {n : ℕ} {es : List (ChannelAction α)}
    (hr : Run (channelStep basicNack) Politely (Deliveries.fresh n) es b) : Clean b :=
  (hr.invariant (fun _ _ _ h hp hs => smooth_step h hp hs) fresh_smooth).clean

/-- A block fails after its channel was lost; the message is delivered again, and acknowledged. -/
theorem redelivered_politely : ∃ b, Run (channelStep true) Politely (Deliveries.fresh 1)
    [.declareQueue "tasks", .publish "tasks" 3, .deliver 0 "tasks" 0 false, .lost 0,
      .act 0 0 (.exit ⟨false, false, false⟩ true), .deliver 0 "tasks" 0 false,
      .act 0 1 (.exit ⟨false, false, false⟩ false), .receive 0, .act 0 1 (.sent 0)] b ∧
    Clean b ∧ b.settled.map Settled.item = [3] := by
  obtain ⟨b, hb⟩ : ∃ b, checked (channelStep true) Politely (Deliveries.fresh 1)
    [.declareQueue "tasks", .publish "tasks" 3, .deliver 0 "tasks" 0 false, .lost 0,
      .act 0 0 (.exit ⟨false, false, false⟩ true), .deliver 0 "tasks" 0 false,
      .act 0 1 (.exit ⟨false, false, false⟩ false), .receive 0, .act 0 1 (.sent 0)] = some b :=
    ⟨_, rfl⟩
  have hr := run_of_checked hb
  obtain rfl := Option.some.inj hb
  exact ⟨_, hr, polite_accepted hr, rfl⟩

end Politeness

end AioPika.Message
