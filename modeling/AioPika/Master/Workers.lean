import AioPika.Foundation.Tally
import AioPika.Master.Jobs
import AioPika.Message.Channels

/-! # Masters and workers

Masters put tasks into the queues of workers. A worker gets the tasks of its
queue on the channel of its master, and settles each of them as its job decides;
any channel may be lost at any time, and any number of jobs are under way.
-/

namespace AioPika.Tasks

open Message (IncomingMessage Frame)
open Deliveries (Client Channel Handle Ready Settled Sound Clean)

/-- A task as the broker has it. -/
structure Task (B : Type) where
  /-- Which call of `create_task` it comes from. -/
  number : ℕ
  body : B
  deriving DecidableEq, Repr

/-- `Worker`, the consumer of a master -/
structure Worker where
  master : ℕ
  channel : ℕ
  queue : String
  closed : Bool
  deriving DecidableEq, Repr

structure Assignment (V : Type) where
  master : ℕ
  queue : String
  job : Job V

/-- Masters, and the server of their connections. -/
structure Setup (B V : Type) where
  objects : Objects V
  masters : ℕ → Master B V
  /-- `serialize`, which may raise -/
  serialize : V → Option B
  basicNack : Bool

structure System (B V : Type) where
  broker : Deliveries.Broker String (Task B) (Assignment V)
  /-- The tasks that were published, with their queues. -/
  created : List (String × V)
  /-- The tasks that `on_message_returned` has got. -/
  returned : List (Task B)
  workers : List Worker

inductive WorkersAction (V : Type) where
  | createQueue (queue : String)
  | deleteQueue (queue : String)
  | createTask (queue : String) (kwargs : V)
  /-- A task expires. -/
  | expire (queue : String) (n : ℕ)
  | createWorker (master channel : ℕ) (queue : String)
  | closeWorker (worker : ℕ)
  | deliver (worker n : ℕ)
  /-- A job goes on. -/
  | event (channel message : ℕ) (event : Event)
  | receive (channel : ℕ)
  | lost (channel : ℕ)

variable {B V : Type} (setup : Setup B V)

def Assignment.lost (x : Assignment V) : Assignment V :=
  { x with job := { x.job with state := { x.job.state with channelClosed := true } } }

def client : Client (Assignment V) where
  notes x := x.job.state.frames.map Frame.note
  lost := Assignment.lost
  notes_lost _ := rfl

def Worker.assignment (worker : Worker) (tag : ℕ) (m : Ready (Task B)) : Assignment V :=
  let message : IncomingMessage := ⟨false, some tag, m.redelivered, setup.basicNack⟩
  ⟨worker.master, worker.queue, ⟨message, Message.fresh message, .scheduled, none⟩⟩

namespace System

variable (s : System B V)

/-- `create_task`: the message is published to the default exchange with `mandatory`. -/
def createTask (queue : String) (kwargs : V) : System B V :=
  match setup.serialize kwargs with
  | none => s
  | some body =>
    let task : Task B := ⟨s.created.length, body⟩
    match s.broker.enqueue queue task with
    | some broker => { s with broker := broker, created := s.created ++ [(queue, kwargs)] }
    | none =>
      { s with created := s.created ++ [(queue, kwargs)], returned := s.returned ++ [task] }

def step (s : System B V) : WorkersAction V → Option (System B V)
  | .createQueue queue => some { s with broker := s.broker.declare queue }
  | .deleteQueue queue => do
    let broker ← s.broker.delete queue
    return { s with broker := broker }
  | .createTask queue kwargs => some (s.createTask setup queue kwargs)
  | .expire queue n => do
    let broker ← s.broker.expire queue n
    return { s with broker := broker }
  | .createWorker master channel queue => some { s with
      broker := s.broker.declare queue
      workers := s.workers ++ [⟨master, channel, queue, false⟩] }
  | .closeWorker w => do
    let worker ← s.workers[w]?
    return { s with workers := s.workers.set w { worker with closed := true } }
  | .deliver w n => do
    let worker ← s.workers[w]?
    if worker.closed then none
    else
      let broker ← s.broker.deliver worker.channel worker.queue n (worker.assignment setup)
      return { s with broker := broker }
  | .event p i e => do
    let c ← s.broker.channels[p]?
    let h ← c.handles[i]?
    let job ← h.state.job.step setup.objects (setup.masters h.state.master) h.item.body e
    let sent := Message.sentFrame h.state.job.state job.state
    return { s with broker := s.broker.update p i c h { h.state with job } (sent.map Frame.note) }
  | .receive p => do
    let broker ← s.broker.process client p
    return { s with broker := broker }
  | .lost p => do
    let broker ← s.broker.lose client p
    return { s with broker := broker }

end System

def fresh (n : ℕ) : System B V := ⟨Deliveries.fresh n, [], [], []⟩

/-- As long as its channel lasts, what is sent for a job gets through. -/
def Steady (s : System B V) : WorkersAction V → Prop
  | .event p i e => ∀ c ∈ s.broker.channels[p]?, ∀ h ∈ c.handles[i]?, e.Steady h.state.job
  | _ => True

instance (s : System B V) : DecidablePred (Steady s)
  | .event p i e => inferInstanceAs (Decidable
      (∀ c ∈ s.broker.channels[p]?, ∀ h ∈ c.handles[i]?, e.Steady h.state.job))
  | .createQueue _ | .deleteQueue _ | .createTask _ _ | .expire _ _ | .createWorker _ _ _
  | .closeWorker _ | .deliver _ _ | .receive _ | .lost _ => .isTrue trivial

/-- A task is one that `create_task` has published to a queue. -/
def Origin (created : List (String × V)) (queue : String) (task : Task B) : Prop :=
  ∃ kwargs, created[task.number]? = some (queue, kwargs) ∧ setup.serialize kwargs = some task.body

/-- What is known of a delivered task. -/
structure Attended (created : List (String × V)) (epoch : ℕ)
    (h : Handle (Task B) (Assignment V)) : Prop where
  auto : h.auto = false
  noAck : h.state.job.message.noAck = false
  tag : h.state.job.message.deliveryTag = some h.tag
  pos : 0 < h.tag
  redelivered : h.state.job.message.redelivered = h.redelivered
  basicNack : h.state.job.message.basicNack = setup.basicNack
  channel : h.epoch = epoch ↔ h.state.job.state.channelClosed = false
  stage : h.state.job.Stage setup.objects (setup.masters h.state.master) h.item.body
  origin : Origin setup created h.state.queue h.item

/-- The tags are known, every task has its origin, and every delivered task is attended to. -/
structure Orderly (s : System B V) : Prop where
  sound : Sound client s.broker
  attended : s.broker.Each (Origin setup s.created) (Attended setup s.created)
  clean : Clean s.broker

/-- A step of the deliveries that leaves everything in order. -/
def Advances (s t : System B V) : Prop :=
  Orderly setup t ∧ ∃ m, Deliveries.Move client s.broker m t.broker

section Steps

variable {setup} {s t : System B V} {a : WorkersAction V} {created created' : List (String × V)}
  {epoch : ℕ} {h : Handle (Task B) (Assignment V)} {p i : ℕ} {e : Event}

theorem Origin.mono {queue : String} {task : Task B} (ho : Origin setup created queue task)
    (hp : created <+: created') : Origin setup created' queue task := by
  obtain ⟨kwargs, hk, hb⟩ := ho
  obtain ⟨rest, rfl⟩ := hp
  refine ⟨kwargs, ?_, hb⟩
  rw [List.getElem?_append_left (List.getElem?_eq_some_iff.mp hk).1]
  exact hk

theorem Attended.mono (ha : Attended setup created epoch h) (hp : created <+: created') :
    Attended setup created' epoch h :=
  { ha with origin := ha.origin.mono hp }

theorem attended_new {worker : Worker} {tag : ℕ} {m : Ready (Task B)}
    (ho : Origin setup created worker.queue m.item) : Attended setup created epoch
      ⟨epoch, tag + 1, m.item, m.redelivered, false, worker.assignment setup (tag + 1) m⟩ where
  auto := rfl
  noAck := rfl
  tag := rfl
  pos := Nat.succ_pos tag
  redelivered := rfl
  basicNack := rfl
  channel := iff_of_true rfl rfl
  stage := ⟨rfl, rfl⟩
  origin := ho

theorem Attended.lost (ha : Attended setup created epoch h) (hle : h.epoch ≤ epoch) :
    Attended setup created (epoch + 1) { h with state := h.state.lost } where
  auto := ha.auto
  noAck := ha.noAck
  tag := ha.tag
  pos := ha.pos
  redelivered := ha.redelivered
  basicNack := ha.basicNack
  channel := iff_of_false (fun he => by simp only at he; omega) nofun
  stage := ha.stage.lost
  origin := ha.origin

theorem Attended.tagged (ha : Attended setup created epoch h) :
    h.state.job.message.deliveryTag.getD 0 ≠ 0 := by
  rw [ha.tag]
  exact Nat.ne_of_gt ha.pos

theorem Attended.next (ha : Attended setup created epoch h) {job : Job V}
    (hn : h.state.job.Next setup.objects (setup.masters h.state.master) h.item.body job) :
    Attended setup created epoch { h with state := { h.state with job := job } } where
  auto := ha.auto
  noAck := hn.message ▸ ha.noAck
  tag := hn.message ▸ ha.tag
  pos := ha.pos
  redelivered := hn.message ▸ ha.redelivered
  basicNack := hn.message ▸ ha.basicNack
  channel := hn.channel ▸ ha.channel
  stage := hn.stage
  origin := ha.origin

theorem Decided.single {objects : Objects V} {master : Master B V} {message : IncomingMessage}
    {body : B} {result : Option (Except Exc Unit)} {frame : Frame}
    (hd : Decided objects master message body result frame) : frame.note.1 = false := by
  have hverb : ∀ exc, (master.verb message exc).note.1 = false := by
    intro exc
    cases exc <;> rfl
  have hverdict : ∀ func, Verdict objects master message func body frame →
      frame.note.1 = false := by
    intro func hv
    cases hv with
    | returned | badPayload => rfl
    | raised | undecoded => exact hverb _
  cases hd with
  | executed _ hv | unfit _ hv => exact hverdict _ hv

theorem Attended.single (ha : Attended setup created epoch h) :
    ∀ x ∈ client.notes h.state, x.1 = false := by
  intro x hx
  obtain ⟨f, hf, rfl⟩ := List.mem_map.mp hx
  rcases ha.stage.frames with hnil | ⟨frame, hframes, hd⟩
  · rw [hnil] at hf
    cases hf
  · rw [hframes] at hf
    obtain rfl := List.mem_singleton.mp hf
    exact hd.single

theorem Orderly.quiet (ho : Orderly setup s)
    (hm : Deliveries.Move client s.broker none t.broker)
    (he : t.broker.Each (Origin setup t.created) (Attended setup t.created)) :
    Advances setup s t :=
  ⟨⟨ho.sound.move hm, he, (ho.clean.move ho.sound hm).mpr nofun⟩, none, hm⟩

theorem Orderly.lost (ho : Orderly setup s) : ∀ c ∈ s.broker.channels, ∀ h ∈ c.handles,
    Attended setup s.created (c.epoch + 1) { h with state := client.lost h.state } :=
  fun c hc h hh => (ho.attended.handles c hc h hh).lost ((ho.sound.channels c hc).epochs h hh)

theorem event_cases (hs : s.step setup (.event p i e) = some t) : ∃ c h job,
    s.broker.channels[p]? = some c ∧ c.handles[i]? = some h ∧
      h.state.job.step setup.objects (setup.masters h.state.master) h.item.body e = some job ∧
      t.broker = s.broker.update p i c h { h.state with job }
        ((Message.sentFrame h.state.job.state job.state).map Frame.note) ∧
      t.created = s.created ∧ t.returned = s.returned := by
  simp only [System.step, Option.bind_eq_bind, Option.bind_eq_some_iff, Option.pure_def,
    Option.some.injEq] at hs
  obtain ⟨c, hp, h, hi, job, hjob, rfl⟩ := hs
  exact ⟨c, h, job, hp, hi, hjob, rfl, rfl, rfl⟩

/-- A job sends nothing that is refused. -/
theorem orderly_event (hnack : setup.basicNack = true) (ho : Orderly setup s)
    (hsteady : Steady s (.event p i e)) (hs : s.step setup (.event p i e) = some t) :
    Advances setup s t := by
  obtain ⟨c, h, job, hp, hi, hjob, hbroker, hcreated, -⟩ := event_cases hs
  have hmem := List.mem_of_getElem? hp
  have ha := ho.attended.handles c hmem h (List.mem_of_getElem? hi)
  have hnext := step_next ha.noAck ha.tagged (ha.basicNack.trans hnack) ha.stage
    (hsteady c hp h hi) hjob
  have heach : ∀ sent, Deliveries.Broker.Each (Origin setup t.created) (Attended setup t.created)
      (s.broker.update p i c h { h.state with job } sent) := by
    rw [hcreated]
    exact fun sent => ho.attended.update hp (ha.next hnext)
  rcases hnext.frames with hframes | ⟨hopen, hnone, frame, hframes, -⟩
  · rw [Message.sentFrame_same hframes] at hbroker
    have hmove : Deliveries.Move client s.broker none t.broker := by
      rw [hbroker]
      refine .quiet hp hi ?_
      simp only [client, hframes]
    exact ho.quiet hmove (hbroker ▸ heach none)
  · have hsent : job.state.frames = h.state.job.state.frames ++ [frame] := by
      rw [hframes, hnone, List.nil_append]
    rw [Message.sentFrame_append hsent] at hbroker
    have he : h.epoch = c.epoch := ha.channel.mpr hopen
    have hmove : Deliveries.Move client s.broker (some (p, i)) t.broker := by
      rw [hbroker]
      refine .send hp hi ?_ ha.auto he
      change job.state.frames.map Frame.note =
        h.state.job.state.frames.map Frame.note ++ [frame.note]
      rw [hsent, List.map_append, List.map_singleton]
    refine ⟨⟨ho.sound.move hmove, hbroker ▸ heach _,
      (ho.clean.move ho.sound hmove).mpr ?_⟩, _, hmove⟩
    rintro p' i' hlabel c' hp' h' hi'
    obtain ⟨rfl, rfl⟩ := Prod.mk.inj (Option.some.inj hlabel)
    obtain rfl := Option.some.inj (hp.symm.trans hp')
    obtain rfl := Option.some.inj (hi.symm.trans hi')
    refine (ho.sound.channels c hmem).untouched hi he (by simp [client, hnone]) ?_
    exact fun h' hh' _ => (ho.attended.handles c hmem h' hh').single

theorem create_cases {queue : String} {kwargs : V} {P : System B V → Prop}
    (hnone : setup.serialize kwargs = none → P s)
    (hsome : ∀ body broker, setup.serialize kwargs = some body →
      s.broker.enqueue queue ⟨s.created.length, body⟩ = some broker →
        P { s with broker := broker, created := s.created ++ [(queue, kwargs)] })
    (hback : ∀ body, setup.serialize kwargs = some body →
      P { s with
        created := s.created ++ [(queue, kwargs)]
        returned := s.returned ++ [⟨s.created.length, body⟩] }) :
    P (s.createTask setup queue kwargs) := by
  simp only [System.createTask]
  split
  · rename_i hbody
    exact hnone hbody
  · rename_i body hbody
    split
    · rename_i broker hb
      exact hsome body broker hbody hb
    · exact hback body hbody

theorem quiet_step (ha : ∀ p i e, a ≠ .event p i e) (hs : s.step setup a = some t) :
    Deliveries.Move client s.broker none t.broker := by
  cases a with
  | createQueue queue =>
    obtain rfl := Option.some.inj hs
    exact Deliveries.declare_move
  | deleteQueue queue =>
    simp only [System.step, Option.bind_eq_bind, Option.bind_eq_some_iff, Option.pure_def,
      Option.some.injEq] at hs
    obtain ⟨broker, hb, rfl⟩ := hs
    exact Deliveries.delete_move hb
  | createTask queue kwargs =>
    obtain rfl := Option.some.inj hs
    exact create_cases (P := fun t => Deliveries.Move client s.broker none t.broker)
      (fun _ => .stay) (fun _ _ _ hb => Deliveries.enqueue_move hb) fun _ _ => .stay
  | expire queue n =>
    simp only [System.step, Option.bind_eq_bind, Option.bind_eq_some_iff, Option.pure_def,
      Option.some.injEq] at hs
    obtain ⟨broker, hb, rfl⟩ := hs
    exact Deliveries.expire_move hb
  | createWorker master channel queue =>
    obtain rfl := Option.some.inj hs
    exact Deliveries.declare_move
  | closeWorker w =>
    simp only [System.step, Option.bind_eq_bind, Option.bind_eq_some_iff, Option.pure_def,
      Option.some.injEq] at hs
    obtain ⟨worker, hw, rfl⟩ := hs
    exact .stay
  | deliver w n =>
    simp only [System.step, Option.bind_eq_bind, Option.bind_eq_some_iff] at hs
    obtain ⟨worker, hw, hs⟩ := hs
    split at hs
    · cases hs
    · simp only [Option.bind_eq_some_iff, Option.pure_def, Option.some.injEq] at hs
      obtain ⟨broker, hb, rfl⟩ := hs
      exact Deliveries.deliver_move (fun _ _ => rfl) hb
  | event p i e => exact absurd rfl (ha p i e)
  | receive p =>
    simp only [System.step, Option.bind_eq_bind, Option.bind_eq_some_iff, Option.pure_def,
      Option.some.injEq] at hs
    obtain ⟨broker, hb, rfl⟩ := hs
    exact Deliveries.process_move hb
  | lost p =>
    simp only [System.step, Option.bind_eq_bind, Option.bind_eq_some_iff, Option.pure_def,
      Option.some.injEq] at hs
    obtain ⟨broker, hb, rfl⟩ := hs
    exact Deliveries.lose_move hb

theorem orderly_step (hnack : setup.basicNack = true) (ho : Orderly setup s) (hsteady : Steady s a)
    (hs : s.step setup a = some t) : Advances setup s t := by
  have hquiet : (∀ p i e, a ≠ .event p i e) →
      t.broker.Each (Origin setup t.created) (Attended setup t.created) → Advances setup s t :=
    fun ha he => ho.quiet (quiet_step ha hs) he
  cases a with
  | createQueue queue =>
    obtain rfl := Option.some.inj hs
    exact hquiet nofun ho.attended.declare
  | deleteQueue queue =>
    simp only [System.step, Option.bind_eq_bind, Option.bind_eq_some_iff, Option.pure_def,
      Option.some.injEq] at hs
    obtain ⟨broker, hb, rfl⟩ := hs
    exact hquiet nofun (ho.attended.delete hb)
  | createTask queue kwargs =>
    obtain rfl := Option.some.inj hs
    refine hquiet nofun ?_
    have hprefix : s.created <+: s.created ++ [(queue, kwargs)] := List.prefix_append _ _
    have hmono := ho.attended.mono (fun _ _ h => h.mono hprefix) (fun _ _ h => h.mono hprefix)
    refine create_cases (P := fun t => t.broker.Each (Origin setup t.created)
      (Attended setup t.created)) (fun _ => ho.attended) (fun body broker hbody hb => ?_)
      fun body _ => hmono
    exact hmono.enqueue ⟨kwargs, List.getElem?_concat_length, hbody⟩ hb
  | expire queue n =>
    simp only [System.step, Option.bind_eq_bind, Option.bind_eq_some_iff, Option.pure_def,
      Option.some.injEq] at hs
    obtain ⟨broker, hb, rfl⟩ := hs
    exact hquiet nofun (ho.attended.expire hb)
  | createWorker master channel queue =>
    obtain rfl := Option.some.inj hs
    exact hquiet nofun ho.attended.declare
  | closeWorker w =>
    simp only [System.step, Option.bind_eq_bind, Option.bind_eq_some_iff, Option.pure_def,
      Option.some.injEq] at hs
    obtain ⟨worker, hw, rfl⟩ := hs
    exact hquiet nofun ho.attended
  | deliver w n =>
    simp only [System.step, Option.bind_eq_bind, Option.bind_eq_some_iff] at hs
    obtain ⟨worker, hw, hs⟩ := hs
    split at hs
    · cases hs
    · simp only [Option.bind_eq_some_iff, Option.pure_def, Option.some.injEq] at hs
      obtain ⟨broker, hb, rfl⟩ := hs
      exact hquiet nofun (ho.attended.deliver (fun c _ m hm => attended_new hm) hb)
  | event p i e => exact orderly_event hnack ho hsteady hs
  | receive p =>
    simp only [System.step, Option.bind_eq_bind, Option.bind_eq_some_iff, Option.pure_def,
      Option.some.injEq] at hs
    obtain ⟨broker, hb, rfl⟩ := hs
    exact hquiet nofun (ho.attended.process ho.lost hb)
  | lost p =>
    simp only [System.step, Option.bind_eq_bind, Option.bind_eq_some_iff, Option.pure_def,
      Option.some.injEq] at hs
    obtain ⟨broker, hb, rfl⟩ := hs
    exact hquiet nofun (ho.attended.lose ho.lost hb)

theorem fresh_orderly {n : ℕ} : Orderly setup (fresh n : System B V) :=
  ⟨Deliveries.fresh_sound, Deliveries.fresh_each, Deliveries.fresh_clean⟩

/-- The tasks are numbered: each one was published once, or came back. -/
structure Numbered (setup : Setup B V) (s : System B V) : Prop where
  once : (s.broker.published ++ s.returned).Nodup
  known : ∀ task, task ∈ s.broker.published ++ s.returned ↔
    ∃ queue, Origin setup s.created queue task
  kept : s.broker.handedOut = []

theorem Numbered.keeps (hn : Numbered setup s) (hk : s.broker.Keeps t.broker)
    (hc : t.created = s.created) (hr : t.returned = s.returned) : Numbered setup t where
  once := by
    rw [hk.published, hr]
    exact hn.once
  known := by
    rw [hk.published, hr, hc]
    exact hn.known
  kept := hk.handedOut.trans hn.kept

theorem Numbered.add (hn : Numbered setup s) {queue : String} {kwargs : V} {body : B}
    (hbody : setup.serialize kwargs = some body) (hc : t.created = s.created ++ [(queue, kwargs)])
    (hp : (t.broker.published ++ t.returned).Perm
      (⟨s.created.length, body⟩ :: (s.broker.published ++ s.returned)))
    (hk : t.broker.handedOut = []) : Numbered setup t where
  once := by
    rw [hp.nodup_iff, List.nodup_cons]
    refine ⟨fun hmem => ?_, hn.once⟩
    obtain ⟨queue', kwargs', hk', -⟩ := (hn.known _).mp hmem
    exact absurd (List.getElem?_eq_some_iff.mp hk').1 (Nat.lt_irrefl _)
  known task := by
    rw [hp.mem_iff, List.mem_cons, hn.known, hc]
    constructor
    · rintro (rfl | ⟨queue', ho⟩)
      · exact ⟨queue, kwargs, List.getElem?_concat_length, hbody⟩
      · exact ⟨queue', ho.mono (List.prefix_append _ _)⟩
    · rintro ⟨queue', kwargs', hk', hb⟩
      rcases Members.of_append hk' with hk' | ⟨hnum, heq⟩
      · exact Or.inr ⟨queue', kwargs', hk', hb⟩
      · obtain ⟨-, rfl⟩ := Prod.mk.inj heq
        obtain rfl := Option.some.inj (hbody.symm.trans hb)
        obtain ⟨number, body⟩ := task
        obtain rfl : number = s.created.length := hnum
        exact Or.inl rfl
  kept := hk

theorem numbered_step (hn : Numbered setup s) (hs : s.step setup a = some t) :
    Numbered setup t := by
  cases a with
  | createQueue queue =>
    obtain rfl := Option.some.inj hs
    exact hn.keeps .declare rfl rfl
  | deleteQueue queue =>
    simp only [System.step, Option.bind_eq_bind, Option.bind_eq_some_iff, Option.pure_def,
      Option.some.injEq] at hs
    obtain ⟨broker, hb, rfl⟩ := hs
    exact hn.keeps (.delete hb) rfl rfl
  | createTask queue kwargs =>
    obtain rfl := Option.some.inj hs
    refine create_cases (fun _ => hn) (fun body broker hbody hb => ?_) fun body hbody => ?_
    · simp only [Deliveries.Broker.enqueue, Option.bind_eq_bind, Option.bind_eq_some_iff,
        Option.pure_def, Option.some.injEq] at hb
      obtain ⟨ms, hq, rfl⟩ := hb
      refine hn.add hbody rfl ?_ hn.kept
      rw [List.append_assoc, List.singleton_append]
      exact List.perm_middle
    · refine hn.add hbody rfl ?_ hn.kept
      rw [← List.append_assoc]
      exact List.perm_append_singleton _ _
  | expire queue n =>
    simp only [System.step, Option.bind_eq_bind, Option.bind_eq_some_iff, Option.pure_def,
      Option.some.injEq] at hs
    obtain ⟨broker, hb, rfl⟩ := hs
    exact hn.keeps (.expire hb) rfl rfl
  | createWorker master channel queue =>
    obtain rfl := Option.some.inj hs
    exact hn.keeps .declare rfl rfl
  | closeWorker w =>
    simp only [System.step, Option.bind_eq_bind, Option.bind_eq_some_iff, Option.pure_def,
      Option.some.injEq] at hs
    obtain ⟨worker, hw, rfl⟩ := hs
    exact hn.keeps ⟨rfl, rfl⟩ rfl rfl
  | deliver w n =>
    simp only [System.step, Option.bind_eq_bind, Option.bind_eq_some_iff] at hs
    obtain ⟨worker, hw, hs⟩ := hs
    split at hs
    · cases hs
    · simp only [Option.bind_eq_some_iff, Option.pure_def, Option.some.injEq] at hs
      obtain ⟨broker, hb, rfl⟩ := hs
      exact hn.keeps (.deliver hb) rfl rfl
  | event p i e =>
    obtain ⟨c, h, job, -, -, -, hbroker, hcreated, hreturned⟩ := event_cases hs
    refine hn.keeps ?_ hcreated hreturned
    rw [hbroker]
    exact ⟨rfl, rfl⟩
  | receive p =>
    simp only [System.step, Option.bind_eq_bind, Option.bind_eq_some_iff, Option.pure_def,
      Option.some.injEq] at hs
    obtain ⟨broker, hb, rfl⟩ := hs
    exact hn.keeps (.process hb) rfl rfl
  | lost p =>
    simp only [System.step, Option.bind_eq_bind, Option.bind_eq_some_iff, Option.pure_def,
      Option.some.injEq] at hs
    obtain ⟨broker, hb, rfl⟩ := hs
    exact hn.keeps (.lose hb) rfl rfl

theorem fresh_numbered {n : ℕ} : Numbered setup (fresh n : System B V) where
  once := List.nodup_nil
  known task := by
    refine iff_of_false List.not_mem_nil ?_
    rintro ⟨queue, kwargs, hk, -⟩
    cases hk
  kept := rfl

variable [DecidableEq B]

theorem conserved_step {task : Task B} (h : s.broker.Conserved task)
    (hs : s.step setup a = some t) : t.broker.Conserved task := by
  by_cases ha : ∃ p i e, a = .event p i e
  · obtain ⟨p, i, e, rfl⟩ := ha
    obtain ⟨c, h', job, hp, -, -, hbroker, -⟩ := event_cases hs
    rw [hbroker]
    exact h.update hp
  · exact h.move (quiet_step (fun p i e he => ha ⟨p, i, e, he⟩) hs)

/-- What the counts of a task say. -/
structure Tallied (s : System B V) (task : Task B) : Prop where
  counted : s.broker.Counted task
  firsts : s.broker.firsts task ≤ s.broker.published.count task

structure Attends (setup : Setup B V) (s : System B V) : Prop where
  orderly : Orderly setup s
  numbered : Numbered setup s
  tallied : ∀ task, Tallied s task

theorem attends_step (hnack : setup.basicNack = true) (ha : Attends setup s) (hsteady : Steady s a)
    (hs : s.step setup a = some t) : Attends setup t := by
  obtain ⟨horderly, m, hm⟩ := orderly_step hnack ha.orderly hsteady hs
  refine ⟨horderly, numbered_step ha.numbered hs, fun task => ?_⟩
  obtain ⟨hcounted, hfirsts⟩ := ha.tallied task
  exact ⟨hcounted.move hm, Deliveries.firsts_move hfirsts hm⟩

theorem fresh_attends {n : ℕ} : Attends setup (fresh n : System B V) where
  orderly := fresh_orderly
  numbered := fresh_numbered
  tallied _ := ⟨Deliveries.fresh_counted, Nat.le_of_eq Deliveries.fresh_firsts⟩

omit [DecidableEq B] in
theorem settled_own (ho : Orderly setup s) {r : Settled (Task B)} (hr : r ∈ s.broker.settled) :
    ∃ c, s.broker.channels[r.channel]? = some c ∧ ∃ h ∈ c.handles, h.epoch = r.epoch ∧
      h.tag = r.tag ∧ h.item = r.item ∧ (r.note.multiple, r.note.verb) ∈ client.notes h.state :=
  ho.sound.own hr fun c hc h hh _ =>
    (ho.attended.handles c (List.mem_of_getElem? hc) h hh).single

omit [DecidableEq B] in
theorem Attended.decided (ha : Attended setup created epoch h) {x : Bool × Deliveries.Verb}
    (hx : x ∈ client.notes h.state) : ∃ frame, frame.note = x ∧
      Decided setup.objects (setup.masters h.state.master) h.state.job.message h.item.body
        h.state.job.result frame := by
  obtain ⟨f, hf, rfl⟩ := List.mem_map.mp hx
  rcases ha.stage.frames with hnil | ⟨frame, hframes, hd⟩
  · rw [hnil] at hf
    cases hf
  · rw [hframes] at hf
    obtain rfl := List.mem_singleton.mp hf
    exact ⟨f, rfl, hd⟩

end Steps

/-- The task was published for the queue of a worker, and delivered to it, and what became of it was
decided as the worker has ended. -/
def Judged (s : System B V) (r : Settled (Task B)) : Prop :=
  ∃ c ∈ s.broker.channels[r.channel]?, ∃ h ∈ c.handles,
    (h.epoch = r.epoch ∧ h.tag = r.tag ∧ h.item = r.item) ∧
    Origin setup s.created h.state.queue r.item ∧
    ∃ frame, frame.note = (false, r.note.verb) ∧
      Decided setup.objects (setup.masters h.state.master) h.state.job.message r.item.body
        h.state.job.result frame

section Runs

open Transition

variable {setup} {s : System B V} {as : List (WorkersAction V)} {n : ℕ} [DecidableEq B]

theorem attends_run (hnack : setup.basicNack = true)
    (hr : Run (System.step setup) Steady (fresh n) as s) : Attends setup s :=
  hr.invariant (fun _ _ _ ha hsteady hs => attends_step hnack ha hsteady hs) fresh_attends

omit [DecidableEq B] in
theorem orderly_run (hnack : setup.basicNack = true)
    (hr : Run (System.step setup) Steady (fresh n) as s) : Orderly setup s :=
  hr.invariant (fun _ _ _ ho hsteady hs => (orderly_step hnack ho hsteady hs).1) fresh_orderly

omit [DecidableEq B] in
/-- Whatever the order of the steps, and whichever channels are lost, what the broker settles is a
task of `create_task`, and is settled as the worker that got it has ended. -/
theorem settled_judged (hnack : setup.basicNack = true)
    (hr : Run (System.step setup) Steady (fresh n) as s) {r : Settled (Task B)}
    (hmem : r ∈ s.broker.settled) : Judged setup s r := by
  have ho := orderly_run hnack hr
  obtain ⟨c, hc, h, hh, he, ht, hi, hnote⟩ := settled_own ho hmem
  have ha := ho.attended.handles c (List.mem_of_getElem? hc) h hh
  obtain ⟨frame, hframe, hd⟩ := ha.decided hnote
  have hsingle : r.note.multiple = false := ha.single _ hnote
  refine ⟨c, hc, h, hh, ⟨he, ht, hi⟩, hi ▸ ha.origin, frame, ?_, hi ▸ hd⟩
  rw [hframe, hsingle]

/-- Masters that put failed tasks back once. -/
def cautious : Setup (Bool × Bool) (Bool × Bool) :=
  ⟨flags, fun _ => ⟨true, true, .ok⟩, some, true⟩

/-- The worker fails, gets its task again, and fails again. -/
def failedTwice : List (WorkersAction (Bool × Bool)) :=
  [.createWorker 0 0 "tasks", .createTask "tasks" (true, true), .deliver 0 0, .event 0 0 .begin,
    .event 0 0 (.finish (.error .other)), .receive 0, .event 0 0 (.awaited true), .deliver 0 0,
    .event 0 1 .begin, .event 0 1 (.finish (.error .other)), .event 0 1 (.awaited true), .receive 0]

theorem dropped_judged : ∃ s, Run (System.step cautious) Steady (fresh 1) failedTwice s ∧
    s.broker.settled.map (fun r => r.note.verb) = [.requeue, .drop] ∧
    ∀ r ∈ s.broker.settled, Judged cautious s r := by
  obtain ⟨s, hs⟩ : ∃ s, checked (System.step cautious) Steady (fresh 1) failedTwice = some s :=
    ⟨_, rfl⟩
  have hr := run_of_checked hs
  obtain rfl := Option.some.inj hs
  exact ⟨_, hr, rfl, fun r hmem => settled_judged rfl hr hmem⟩

omit [DecidableEq B] in
/-- Workers settle nothing that is not owed: the broker closes no channel because of them. -/
theorem workers_accepted (hnack : setup.basicNack = true)
    (hr : Run (System.step setup) Steady (fresh n) as s) : s.broker.refused = 0 :=
  (orderly_run hnack hr).clean.refused

theorem two_failures_accepted : ∃ s, Run (System.step cautious) Steady (fresh 1) failedTwice s ∧
    s.broker.refused = 0 := by
  obtain ⟨s, hs⟩ : ∃ s, checked (System.step cautious) Steady (fresh 1) failedTwice = some s :=
    ⟨_, rfl⟩
  have hr := run_of_checked hs
  exact ⟨s, hr, workers_accepted rfl hr⟩

/-- A task that was created is in one place, whatever its worker sends and whichever awaits fail: it
came back, or it waits in its queue, or it is with a worker, or it was settled for good, or it went
with its queue, or expired. -/
theorem task_in_one_place {ok : System B V → WorkersAction V → Prop}
    (hr : Run (System.step setup) ok (fresh n) as s) {queue : String} {task : Task B}
    (ho : Origin setup s.created queue task) :
    s.returned.count task + s.broker.inQueues task + s.broker.isOwed task + s.broker.final task +
      s.broker.discarded.count task = 1 := by
  have hnumbered : Numbered setup s :=
    hr.invariant (fun _ _ _ hn _ hs => numbered_step hn hs) fresh_numbered
  have hconserved : s.broker.Conserved task :=
    hr.invariant (I := fun s => s.broker.Conserved task)
      (fun _ _ _ h _ hs => conserved_step h hs) Deliveries.fresh_conserved
  have hone := List.count_eq_one_of_mem hnumbered.once
    ((hnumbered.known task).mpr ⟨queue, ho⟩)
  rw [List.count_append] at hone
  rw [Deliveries.Broker.Conserved, hnumbered.kept, List.count_nil] at hconserved
  omega

/-- The worker rejects its task, and `on_message` is cancelled while the rejection is sent: the exit
sends another one. -/
def rejectedTwice : List (WorkersAction (Bool × Bool)) :=
  [.createWorker 0 0 "tasks", .createTask "tasks" (true, true), .deliver 0 0, .event 0 0 .begin,
    .event 0 0 (.finish (.error (.rejectMessage false))), .event 0 0 (.awaited false), .receive 0,
    .receive 0]

/-- The broker refuses the second rejection, and the task is dropped, and is nowhere else. -/
theorem dropped_for_good : ∃ s, Run (System.step cautious) (fun _ _ => True) (fresh 1)
      rejectedTwice s ∧ s.broker.refused = 1 ∧ s.broker.final ⟨0, true, true⟩ = 1 ∧
    s.returned.count ⟨0, true, true⟩ + s.broker.inQueues ⟨0, true, true⟩ +
      s.broker.isOwed ⟨0, true, true⟩ + s.broker.final ⟨0, true, true⟩ +
      s.broker.discarded.count ⟨0, true, true⟩ = 1 := by
  obtain ⟨s, hs⟩ : ∃ s, checked (System.step cautious) (fun _ _ => True) (fresh 1) rejectedTwice =
      some s := ⟨_, rfl⟩
  have hr := run_of_checked hs
  obtain rfl := Option.some.inj hs
  exact ⟨_, hr, rfl, rfl, task_in_one_place hr ⟨(true, true), rfl, rfl⟩⟩

/-- The exception asks for the task to be put back. -/
def Exc.requeues : Exc → Bool
  | .rejectMessage requeue | .nackMessage requeue => requeue
  | .settlement _ | .cancelledError | .other => false

/-- The worker, or the decoder, has asked for the task to be put back. -/
def asksAgain (setup : Setup B V) (h : Handle (Task B) (Assignment V)) : Bool :=
  match h.state.job.result with
  | some (.ok ()) => false
  | some (.error exc) => exc.requeues
  | none =>
    match (setup.masters h.state.master).deserialize h.item.body with
    | .ok _ => false
    | .error exc => exc.requeues

/-- How often it was asked that a task be put back. -/
def System.asked (setup : Setup B V) (s : System B V) (task : Task B) : ℕ :=
  Custody.count (fun c : Channel String (Task B) (Assignment V) => c.handles.flatMap fun h =>
    if asksAgain setup h = true then [h.item] else []) s.broker.channels task

omit [DecidableEq B] in
theorem verb_requeue {master : Master B V} {message : IncomingMessage} {exc : Exc}
    (hreject : master.rejectOnRedelivered = true)
    (hv : (master.verb message exc).note.2 = .requeue) :
    message.redelivered = false ∨ exc.requeues = true := by
  have hfallback : (master.fallback message).note.2 = .requeue → message.redelivered = false := by
    intro hf
    by_contra hr
    simp [Master.fallback, hreject, hr, Frame.note] at hf
  cases exc with
  | rejectMessage requeue | nackMessage requeue =>
    cases requeue with
    | true => exact Or.inr rfl
    | false => cases hv
  | settlement | cancelledError | other => exact Or.inl (hfallback hv)

omit [DecidableEq B] in
/-- Where redelivered tasks are rejected, a task is put back at its first delivery or on request. -/
theorem decided_requeue {h : Handle (Task B) (Assignment V)} {frame : Frame}
    (hreject : (setup.masters h.state.master).rejectOnRedelivered = true)
    (hd : Decided setup.objects (setup.masters h.state.master) h.state.job.message h.item.body
      h.state.job.result frame) (hv : frame.note.2 = .requeue) :
    h.state.job.message.redelivered = false ∨ asksAgain setup h = true := by
  unfold asksAgain
  cases hres : h.state.job.result with
  | none =>
    rw [hres] at hd
    cases hd with
    | unfit hruns hverdict =>
      cases hverdict with
      | returned hd hp | raised hd hp => exact absurd ⟨_, hd, hp⟩ hruns
      | badPayload => cases hv
      | undecoded hd =>
        rw [hd]
        exact verb_requeue hreject hv
  | some result =>
    rw [hres] at hd
    cases hd with
    | executed hruns hverdict =>
      cases hverdict with
      | returned | badPayload => cases hv
      | raised hd hp hf =>
        obtain rfl : result = _ := hf
        exact verb_requeue hreject hv
      | undecoded hd =>
        obtain ⟨payload, hd', -⟩ := hruns
        cases hd.symm.trans hd'

/-- Where all masters reject redelivered tasks, a task is delivered twice at most, and once more
each time that its channel is lost, or that it is asked for: a worker that fails does not get its
task again and again. -/
theorem deliveries_bounded (hnack : setup.basicNack = true)
    (hreject : ∀ m, (setup.masters m).rejectOnRedelivered = true)
    (hr : Run (System.step setup) Steady (fresh n) as s) (task : Task B) :
    s.broker.deliveries task ≤ 2 + s.broker.returned.count task + s.asked setup task := by
  have ha := attends_run hnack hr
  have hpublished : s.broker.published.count task ≤ 1 :=
    List.nodup_iff_count_le_one.mp (ha.numbered.once.of_append_left) task
  have hcounted := (ha.tallied task).counted
  have hfirsts := (ha.tallied task).firsts
  have hrequeued : s.broker.requeued task ≤
      Custody.count (fun c : Channel String (Task B) (Assignment V) =>
        c.handles.flatMap Handle.firsts) s.broker.channels task + s.asked setup task := by
    refine Nat.le_trans (Deliveries.settled_le_handles ha.orderly.sound
      (fun r => r.note.verb = .requeue)
      (fun h => h.redelivered = false ∨ asksAgain setup h = true) ?_)
      (Custody.count_le_add fun c => ?_)
    · intro r hmem hv c hc h hh he ht
      obtain ⟨c', hc', h', hh', he', ht', hi', hnote⟩ := settled_own ha.orderly hmem
      obtain rfl := Option.some.inj (hc.symm.trans hc')
      have hsound := ha.orderly.sound.channels c (List.mem_of_getElem? hc)
      obtain ⟨i, hi⟩ := List.getElem?_of_mem hh
      obtain ⟨j, hj⟩ := List.getElem?_of_mem hh'
      obtain rfl := hsound.unique i j h h' hi hj (he.trans he'.symm) (ht.trans ht'.symm)
      obtain rfl := Option.some.inj (hi.symm.trans hj)
      have hattended := ha.orderly.attended.handles c (List.mem_of_getElem? hc) h hh
      obtain ⟨frame, hframe, hd⟩ := hattended.decided hnote
      rw [← hattended.redelivered]
      exact decided_requeue (hreject _) hd (by rw [hframe]; exact hv)
    · rw [Custody.count_flatMap, Custody.count_flatMap, Custody.count_flatMap]
      refine Custody.count_le_add fun h => ?_
      unfold Handle.firsts
      cases h.redelivered <;> cases asksAgain setup h <;> simp
  unfold Deliveries.Broker.Counted at hcounted
  unfold Deliveries.Broker.firsts at hfirsts
  omega

theorem delivered_twice : ∃ s, Run (System.step cautious) Steady (fresh 1) failedTwice s ∧
    s.broker.deliveries ⟨0, true, true⟩ = 2 ∧
    s.broker.deliveries ⟨0, true, true⟩ ≤ 2 + s.broker.returned.count ⟨0, true, true⟩ +
      s.asked cautious ⟨0, true, true⟩ := by
  obtain ⟨s, hs⟩ : ∃ s, checked (System.step cautious) Steady (fresh 1) failedTwice = some s :=
    ⟨_, rfl⟩
  have hr := run_of_checked hs
  obtain rfl := Option.some.inj hs
  exact ⟨_, hr, rfl, deliveries_bounded rfl (fun _ => rfl) hr _⟩

end Runs

end AioPika.Tasks
