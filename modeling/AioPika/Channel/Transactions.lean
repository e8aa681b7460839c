import AioPika.Channel.Firings

/-! # Transactions on a robust channel

A `Transaction` remembers by itself that it is started, and the broker remembers
it of the underlay channel that was selected. `_on_open` declares the exchanges
and queues of the channel again on a new underlay channel, and selects nothing;
the transactions stay as they are.
-/

namespace AioPika.Transactions

open Transition
open Firings (Opened moves_of_step)

inductive TransactionState where
  | created
  | commited
  | rolledBack
  | started
  deriving DecidableEq, Repr

inductive Method where
  | select
  | rollback
  | commit
  deriving DecidableEq, Repr

/-- The state that the method sets after its last await. -/
def Method.state : Method → TransactionState
  | .select => .started
  | .rollback => .rolledBack
  | .commit => .commited

inductive Exc where
  /-- `ChannelInvalidStateError("Channel was not opened")` -/
  | notOpened
  /-- What the await raises. -/
  | awaited (exc : Raised)
  deriving DecidableEq, Repr

inductive Pc where
  /-- In `get_underlay_channel`: `await self._connection.ready()` -/
  | connecting
  /-- `await channel.tx_select(timeout=timeout)` or one of its siblings -/
  | waiting (underlay : ℕ)
  | returned
  | raised (exc : Exc)
  deriving DecidableEq, Repr

def Pc.Done : Pc → Prop
  | .returned | .raised _ => True
  | .connecting | .waiting _ => False

instance : DecidablePred Pc.Done
  | .returned | .raised _ => .isTrue trivial
  | .connecting | .waiting _ => .isFalse id

structure Operation where
  transaction : ℕ
  method : Method
  pc : Pc
  deriving DecidableEq, Repr

structure State where
  /-- `publisher_confirms` of the channel -/
  publisherConfirms : Bool
  channel : Lifecycle.State
  /-- `state` of all transactions that were ever created -/
  transactions : List TransactionState
  /-- All operations that were ever begun. -/
  operations : List Operation
  /-- The underlay channels on which a `tx_select` has succeeded. -/
  selected : List ℕ
  deriving DecidableEq, Repr

/-- Before the channel is initialised. -/
def fresh (publisherConfirms : Bool) : State := ⟨publisherConfirms, Lifecycle.fresh, [], [], []⟩

inductive Action where
  /-- What a coroutine or a callback of the channel does. -/
  | lifecycle (a : Lifecycle.Action)
  /-- `channel.transaction()` -/
  | transaction
  | call (transaction : ℕ) (method : Method)
  /-- The connection is ready. -/
  | connected (operation : ℕ)
  /-- The broker has answered, and the operation returns. -/
  | answered (operation : ℕ)
  /-- The await of the operation raises. -/
  | raised (operation : ℕ) (exc : Raised)
  deriving DecidableEq, Repr

def State.setPc (s : State) (i : ℕ) (o : Operation) (pc : Pc) : State :=
  { s with operations := s.operations.set i { o with pc := pc } }

/-- What a method does with the answer of the broker. -/
def State.answer (s : State) (o : Operation) (u : ℕ) : State :=
  { s with
    transactions := s.transactions.set o.transaction o.method.state
    selected := if o.method = .select then u :: s.selected else s.selected }

/-- `transaction()` raises when publisher confirms are enabled, and the `channel` of a transaction
raises when it is closed. -/
def step (s : State) : Action → Option State
  | .lifecycle a => (Lifecycle.step s.channel a).map fun c => { s with channel := c }
  | .transaction =>
    if s.publisherConfirms then none
    else some { s with transactions := s.transactions ++ [.created] }
  | .call k m =>
    if k < s.transactions.length ∧ s.channel.isClosed = false then
      some { s with operations := s.operations ++ [⟨k, m, .connecting⟩] }
    else none
  | .connected i =>
    match s.operations[i]? with
    | some ⟨k, m, .connecting⟩ =>
      match s.channel.channel with
      | some u => some (s.setPc i ⟨k, m, .connecting⟩ (.waiting u))
      | none => some (s.setPc i ⟨k, m, .connecting⟩ (.raised .notOpened))
    | _ => none
  | .answered i =>
    match s.operations[i]? with
    | some ⟨k, m, .waiting u⟩ =>
      some ((s.answer ⟨k, m, .waiting u⟩ u).setPc i ⟨k, m, .waiting u⟩ .returned)
    | _ => none
  | .raised i exc =>
    match s.operations[i]? with
    | some o => if o.pc.Done then none else some (s.setPc i o (.raised (.awaited exc)))
    | none => none

inductive Step (s : State) : Action → State → Prop
  | lifecycle {a : Lifecycle.Action} {c : Lifecycle.State}
      (hst : Lifecycle.step s.channel a = some c) :
      Step s (.lifecycle a) { s with channel := c }
  | transaction (hp : s.publisherConfirms = false) :
      Step s .transaction { s with transactions := s.transactions ++ [.created] }
  | call {k : ℕ} {m : Method} (hk : k < s.transactions.length)
      (hc : s.channel.isClosed = false) :
      Step s (.call k m) { s with operations := s.operations ++ [⟨k, m, .connecting⟩] }
  | connected {i u : ℕ} {o : Operation} (ho : s.operations[i]? = some o)
      (hp : o.pc = .connecting) (hc : s.channel.channel = some u) :
      Step s (.connected i) (s.setPc i o (.waiting u))
  | notOpened {i : ℕ} {o : Operation} (ho : s.operations[i]? = some o) (hp : o.pc = .connecting)
      (hc : s.channel.channel = none) :
      Step s (.connected i) (s.setPc i o (.raised .notOpened))
  | answered {i u : ℕ} {o : Operation} (ho : s.operations[i]? = some o)
      (hp : o.pc = .waiting u) :
      Step s (.answered i) ((s.answer o u).setPc i o .returned)
  | raised {i : ℕ} {o : Operation} {exc : Raised} (ho : s.operations[i]? = some o)
      (hd : ¬ o.pc.Done) :
      Step s (.raised i exc) (s.setPc i o (.raised (.awaited exc)))

theorem step_cases {s t : State} {a : Action} (h : step s a = some t) : Step s a t := by
  cases a with
  | lifecycle a =>
    obtain ⟨c, hst, rfl⟩ := Option.map_eq_some_iff.mp h
    exact .lifecycle hst
  | transaction =>
    simp only [step] at h
    split at h
    · cases h
    · rename_i hp
      obtain rfl := Option.some.inj h
      exact .transaction (by simpa using hp)
  | call k m =>
    simp only [step] at h
    split at h
    · rename_i hk
      obtain rfl := Option.some.inj h
      exact .call hk.1 hk.2
    · cases h
  | connected i =>
    simp only [step] at h
    split at h
    · rename_i k m ho
      split at h
      · rename_i u hc
        obtain rfl := Option.some.inj h
        exact .connected ho rfl hc
      · rename_i hc
        obtain rfl := Option.some.inj h
        exact .notOpened ho rfl hc
    · cases h
  | answered i =>
    simp only [step] at h
    split at h
    · rename_i k m u ho
      obtain rfl := Option.some.inj h
      exact .answered ho rfl
    · cases h
  | raised i exc =>
    simp only [step] at h
    split at h
    · rename_i o ho
      split at h
      · cases h
      · rename_i hd
        obtain rfl := Option.some.inj h
        exact .raised ho hd
    · cases h

/-- No transaction operation, restore or close callback is in progress. -/
structure Quiet (s : State) : Prop where
  operations : ∀ o ∈ s.operations, o.pc.Done
  restores : ∀ t ∈ s.channel.tasks, ∀ caller, t.call = .restore caller → t.pc.Done
  callbacks : ∀ u ∈ s.channel.underlays, u.closeCallback ≠ .running

/-- A `tx_select` has succeeded on the current underlay channel. -/
def State.Selected (s : State) : Prop := ∃ u ∈ s.channel.channel, u ∈ s.selected

/-- A transaction is started only on an underlay channel that is selected. -/
def Transactional (s : State) : Prop := .started ∈ s.transactions → s.Selected

/-- No transaction is started when the underlay channel is replaced or dropped, and a select that
the broker answers was sent on the current underlay channel, if that one is not selected yet. -/
def Kept (s : State) : Action → Prop
  | .lifecycle (.created _) | .lifecycle (.cleaned _) => .started ∉ s.transactions
  | .answered i => ∀ o ∈ s.operations[i]?, o.method = .select →
      ∃ u ∈ s.channel.channel, u ∈ s.selected ∨ o.pc = .waiting u
  | _ => True

instance (s : State) : DecidablePred (Kept s)
  | .lifecycle (.created _) | .lifecycle (.cleaned _) =>
    inferInstanceAs (Decidable (.started ∉ s.transactions))
  | .answered i =>
    inferInstanceAs (Decidable (∀ o ∈ s.operations[i]?, o.method = .select →
      ∃ u ∈ s.channel.channel, u ∈ s.selected ∨ o.pc = .waiting u))
  | .lifecycle (.call _) | .lifecycle (.locked _) | .lifecycle (.connected _)
  | .lifecycle (.opened _) | .lifecycle (.returned _) | .lifecycle (.raised _ _)
  | .lifecycle (.closed _ _) | .lifecycle (.callbackStarted _) | .lifecycle (.callbackEnded _)
  | .transaction | .call _ _ | .connected _ | .raised _ _ => .isTrue trivial

/-- An underlay channel that is being created has not been opened, and one task creates it. -/
structure Issued (s : Lifecycle.State) : Prop where
  known : ∀ (i : ℕ) c u, s.tasks[i]? = some ⟨c, .creating u⟩ → u < s.underlays.length
  unopened : ∀ (i : ℕ) c u, s.tasks[i]? = some ⟨c, .creating u⟩ → ¬ Opened s.underlays u
  apart : ∀ (i j : ℕ) c c' u, s.tasks[i]? = some ⟨c, .creating u⟩ →
    s.tasks[j]? = some ⟨c', .creating u⟩ → i = j
  current : ∀ u ∈ s.channel, Opened s.underlays u

section Issued

open Lifecycle

variable {s t : Lifecycle.State} {a : Lifecycle.Action} {us : List Underlay} {i u v : ℕ}
  {c : Call} {pc : Lifecycle.Pc} {callback : OneShotCallback}

theorem fresh_issued : Issued Lifecycle.fresh := by
  constructor <;> simp [Lifecycle.fresh]

theorem opened_modify {f : Underlay → Underlay} (hf : ∀ un, (f un).opened = un.opened) :
    Opened (us.modify u f) v ↔ Opened us v := by
  simp only [Opened, List.getElem?_modify]
  split <;> simp [hf]

theorem opened_append (hv : v < us.length) : Opened (us ++ [⟨false, .idle⟩]) v ↔ Opened us v := by
  rw [Opened, Members.get_append_ne (Nat.ne_of_lt hv), Opened]

theorem not_opened_append : ¬ Opened (us ++ [⟨false, .idle⟩]) us.length := by
  rintro ⟨un, hget, ho⟩
  rw [List.getElem?_concat_length] at hget
  obtain rfl := Option.some.inj hget
  cases ho

theorem opened_lt (h : Opened us u) : u < us.length := by
  obtain ⟨un, hget, -⟩ := h
  exact (List.getElem?_eq_some_iff.mp hget).1

theorem opened_step (h : Opened s.underlays u) (hst : Lifecycle.step s a = some t) :
    Opened t.underlays u := by
  generalize hl : t.underlays = us
  have hm := moves_of_step hst
  rw [hl] at hm
  cases hm with
  | keep => exact h
  | begun => exact (opened_append (opened_lt h)).mpr h
  | opened => exact Members.get_modify h fun _ _ _ => rfl
  | called | started | ended =>
    apply (opened_modify _).mpr h
    exact fun _ => rfl

theorem Issued.of_le (h : Issued s)
    (ht : ∀ (i : ℕ) c u, t.tasks[i]? = some ⟨c, .creating u⟩ →
      s.tasks[i]? = some ⟨c, .creating u⟩)
    (hu : ∀ u, Opened t.underlays u ↔ Opened s.underlays u)
    (hl : t.underlays.length = s.underlays.length)
    (hc : ∀ u ∈ t.channel, s.channel = some u) : Issued t := by
  constructor
  · intro i c u hi
    rw [hl]
    exact h.known i c u (ht i c u hi)
  · intro i c u hi ho
    exact h.unopened i c u (ht i c u hi) ((hu u).mp ho)
  · intro i j c c' u hi hj
    exact h.apart i j c c' u (ht i c u hi) (ht j c' u hj)
  · intro u hm
    exact (hu u).mpr (h.current u (hc u hm))

theorem Issued.congr (h : Issued s) (ht : t.tasks = s.tasks) (hu : t.underlays = s.underlays)
    (hc : t.channel = s.channel) : Issued t := by
  apply h.of_le
  · exact fun i c u hi => ht ▸ hi
  · exact fun u => by rw [hu]
  · rw [hu]
  · exact fun u hm => hc ▸ hm

theorem Issued.setPc (h : Issued s) (hpc : ∀ u, pc ≠ .creating u) : Issued (s.setPc i c pc) := by
  refine h.of_le (fun j d u hj => ?_) (fun u => Iff.rfl) rfl fun u => id
  rcases task_setPc hj with ⟨-, he⟩ | ⟨-, hj⟩
  · exact absurd (congrArg Task.pc he).symm (hpc u)
  · exact hj

theorem Issued.start (h : Issued s) (hpc : ∀ u, pc ≠ .creating u) : Issued (s.start c pc) := by
  refine h.of_le (fun j d u hj => ?_) (fun u => Iff.rfl) rfl fun u => id
  rcases task_start hj with hj | he
  · exact hj
  · exact absurd (congrArg Task.pc he).symm (hpc u)

theorem Issued.unlock (h : Issued s) : Issued (s.unlock i) :=
  h.of_le (by simp) (by simp) (by simp) (by simp)

theorem Issued.setCallback (h : Issued s) : Issued (s.setCallback u callback) :=
  h.of_le (fun _ _ _ => id) (fun _ => opened_modify fun _ => rfl) (List.length_modify ..)
    fun _ => id

theorem Issued.connected (h : Issued s) :
    Issued (Lifecycle.State.setPc { s with underlays := s.underlays ++ [⟨false, .idle⟩] } i c
      (.creating s.underlays.length)) := by
  have hcases : ∀ {j : ℕ} {d : Call} {v : ℕ},
      (s.tasks.set i ⟨c, .creating s.underlays.length⟩)[j]? = some ⟨d, .creating v⟩ →
        j = i ∧ v = s.underlays.length ∨
          s.tasks[j]? = some ⟨d, .creating v⟩ ∧ v < s.underlays.length := by
    intro j d v hj
    rcases Members.of_set hj with ⟨rfl, he⟩ | ⟨-, hj⟩
    · cases he
      exact Or.inl ⟨rfl, rfl⟩
    · exact Or.inr ⟨hj, h.known j d v hj⟩
  constructor
  · intro j d v hj
    have hlen : (s.underlays ++ [(⟨false, .idle⟩ : Underlay)]).length = s.underlays.length + 1 :=
      List.length_append
    refine Nat.lt_of_lt_of_eq ?_ hlen.symm
    rcases hcases hj with ⟨-, rfl⟩ | ⟨-, hv⟩
    · exact Nat.lt_succ_self _
    · exact Nat.lt_succ_of_lt hv
  · intro j d v hj
    rcases hcases hj with ⟨-, rfl⟩ | ⟨hj, hv⟩
    · exact not_opened_append
    · exact fun ho => h.unopened j d v hj ((opened_append hv).mp ho)
  · intro j k d d' v hj hk
    rcases hcases hj with ⟨rfl, rfl⟩ | ⟨hj, hv⟩
    · rcases hcases hk with ⟨rfl, -⟩ | ⟨-, hv⟩
      · rfl
      · exact absurd hv (Nat.lt_irrefl _)
    · rcases hcases hk with ⟨-, rfl⟩ | ⟨hk, -⟩
      · exact absurd hv (Nat.lt_irrefl _)
      · exact h.apart j k d d' v hj hk
  · intro v hv
    have ho := h.current v hv
    exact (opened_append (opened_lt ho)).mpr ho

theorem Issued.created (h : Issued s) (ht : s.tasks[i]? = some ⟨c, .creating u⟩) :
    Issued (Lifecycle.State.setPc { s with
      underlays := s.underlays.modify u fun un => { un with opened := true }
      channel := some u } i c (.onOpen u)) := by
  have hcases : ∀ {j : ℕ} {d : Call} {v : ℕ},
      (s.tasks.set i ⟨c, .onOpen u⟩)[j]? = some ⟨d, .creating v⟩ →
        s.tasks[j]? = some ⟨d, .creating v⟩ ∧ u ≠ v := by
    intro j d v hj
    rcases Members.of_set hj with ⟨-, he⟩ | ⟨hne, hj⟩
    · cases he
    · refine ⟨hj, ?_⟩
      rintro rfl
      exact hne (h.apart j i d c u hj ht)
  constructor
  · intro j d v hj
    apply Nat.lt_of_lt_of_eq (h.known j d v (hcases hj).1)
    exact (List.length_modify ..).symm
  · rintro j d v hj ⟨un, hget, ho⟩
    obtain ⟨hj, hne⟩ := hcases hj
    obtain ⟨un', hget, ⟨he, -⟩ | ⟨-, rfl⟩⟩ := Members.of_modify hget
    · exact hne he
    · exact h.unopened j d v hj ⟨un, hget, ho⟩
  · intro j k d d' v hj hk
    exact h.apart j k d d' v (hcases hj).1 (hcases hk).1
  · intro v hv
    obtain rfl := Option.some.inj hv
    have hlt := h.known i c u ht
    refine ⟨{ s.underlays[u] with opened := true }, ?_, rfl⟩
    simp [Lifecycle.State.setPc, hlt]

theorem issued_step (h : Issued s) (hst : Lifecycle.step s a = some t) : Issued t := by
  cases Lifecycle.step_cases hst with
  | restore | reopen | initialization | unopened => exact h.start (by simp)
  | close =>
    exact Issued.start (s := { s with closed := true }) (h.congr rfl rfl rfl) (by simp)
  | skipped | returned | failed => exact h.setPc (by simp)
  | @locked i =>
    exact Issued.setPc (s := { s with lock := some i }) (h.congr rfl rfl rfl) (by simp)
  | connected => exact h.connected
  | created ht => exact h.created ht
  | opened =>
    apply Issued.setPc (s := { s with restored := true, closed := false })
    · exact h.congr rfl rfl rfl
    · intro u
      split <;> simp
  | restored =>
    apply Issued.unlock
    exact Issued.setPc (s := { s with restored := true }) (h.congr rfl rfl rfl) (by simp)
  | raised => exact (h.setPc (by simp)).unlock
  | cleaned =>
    apply Issued.unlock
    apply Issued.setPc (s := { s with channel := none })
    · exact ⟨h.known, h.unopened, h.apart, by simp⟩
    · simp
  | closed | callbackEnded => exact h.setCallback
  | @callbackStarted u exc hi =>
    have hc : Issued (s.setCallback u .running) := h.setCallback
    have hr : Issued { s.setCallback u .running with restored := false } := hc.congr rfl rfl rfl
    rcases closeCallback_cases (s.setCallback u .running) u exc with he | he
    · rw [he]
      exact hr
    · rw [he]
      exact hr.start (by simp)

/-- The underlay channel is replaced when a new one is created, and dropped after a failed open. -/
theorem channel_step (hst : Lifecycle.step s a = some t) :
    (∃ i c u, a = .created i ∧ s.tasks[i]? = some ⟨c, .creating u⟩ ∧ t.channel = some u) ∨
      (∃ i, a = .cleaned i) ∧ t.channel = none ∨
      ((∀ i, a ≠ .created i) ∧ ∀ i, a ≠ .cleaned i) ∧ t.channel = s.channel := by
  cases Lifecycle.step_cases hst with
  | created ht => exact Or.inl ⟨_, _, _, rfl, ht, rfl⟩
  | @cleaned i => exact Or.inr (Or.inl ⟨⟨i, rfl⟩, by simp [Lifecycle.State.setPc]⟩)
  | restore | reopen | initialization | close | unopened | skipped | locked | connected | opened
  | restored | returned | failed | raised | closed | callbackStarted | callbackEnded =>
    exact Or.inr (Or.inr ⟨by simp, by simp [Lifecycle.State.setPc, Lifecycle.State.start,
      Lifecycle.State.setCallback]⟩)

end Issued

/-- The operations are those of the transactions, and wait on underlay channels that were
opened. -/
structure Known (s : State) : Prop where
  issued : Issued s.channel
  selected : ∀ u ∈ s.selected, Opened s.channel.underlays u
  waiting : ∀ o ∈ s.operations, ∀ u, o.pc = .waiting u → Opened s.channel.underlays u
  transactions : ∀ o ∈ s.operations, o.transaction < s.transactions.length

variable {s t : State} {a : Action} {as : List Action} {o : Operation} {pc : Pc} {i k u : ℕ}
  {publisherConfirms : Bool}

theorem fresh_known : Known (fresh publisherConfirms) := by
  constructor
  · exact fresh_issued
  all_goals simp [fresh]

theorem Known.setPc (h : Known s) (ho : s.operations[i]? = some o)
    (hpc : ∀ u, pc = .waiting u → Opened s.channel.underlays u) : Known (s.setPc i o pc) := by
  refine ⟨h.issued, h.selected, fun p hp => ?_, fun p hp => ?_⟩
  · rcases List.mem_or_eq_of_mem_set hp with hp | rfl
    · exact h.waiting p hp
    · exact hpc
  · rcases List.mem_or_eq_of_mem_set hp with hp | rfl
    · exact h.transactions p hp
    · exact h.transactions o (List.mem_of_getElem? ho)

theorem Known.answer (h : Known s) (ho : s.operations[i]? = some o) (hp : o.pc = .waiting u) :
    Known (s.answer o u) := by
  refine ⟨h.issued, fun v hv => ?_, h.waiting, fun p hm => ?_⟩
  · unfold State.answer at hv
    simp only at hv
    split at hv
    · rcases List.mem_cons.mp hv with rfl | hv
      · exact h.waiting o (List.mem_of_getElem? ho) v hp
      · exact h.selected v hv
    · exact h.selected v hv
  · unfold State.answer
    rw [List.length_set]
    exact h.transactions p hm

theorem known_step (h : Known s) (hst : step s a = some t) : Known t := by
  cases step_cases hst with
  | lifecycle hl =>
    exact ⟨issued_step h.issued hl, fun u hu => opened_step (h.selected u hu) hl,
      fun o ho u hp => opened_step (h.waiting o ho u hp) hl, h.transactions⟩
  | transaction =>
    refine ⟨h.issued, h.selected, h.waiting, fun o ho => ?_⟩
    rw [List.length_append]
    exact Nat.lt_add_right _ (h.transactions o ho)
  | @call k m hk =>
    refine ⟨h.issued, h.selected, fun o ho u hp => ?_, fun o ho => ?_⟩
    · rcases List.mem_append.mp ho with ho | ho
      · exact h.waiting o ho u hp
      · rw [List.mem_singleton.mp ho] at hp
        cases hp
    · rcases List.mem_append.mp ho with ho | ho
      · exact h.transactions o ho
      · rw [List.mem_singleton.mp ho]
        exact hk
  | connected ho hp hc =>
    apply h.setPc ho
    rintro u hu
    cases hu
    exact h.issued.current _ hc
  | notOpened ho | raised ho => exact h.setPc ho (by simp)
  | answered ho hp => exact (h.answer ho hp).setPc ho (by simp)

theorem kept_lifecycle {b : Lifecycle.Action} (hc : ∀ i, b ≠ .created i)
    (hd : ∀ i, b ≠ .cleaned i) : Kept s (.lifecycle b) := by
  cases b with
  | created i => exact absurd rfl (hc i)
  | cleaned i => exact absurd rfl (hd i)
  | _ => exact trivial

theorem kept_answered_iff (ho : s.operations[i]? = some o) (hp : o.pc = .waiting u) :
    Kept s (.answered i) ↔
      (o.method = .select → ∃ v ∈ s.channel.channel, v ∈ s.selected ∨ u = v) := by
  simp only [Kept, ho, Option.mem_some_iff, forall_eq', hp, Pc.waiting.injEq]

theorem transactional_answer_iff (h : Known s) (hs : Transactional s)
    (ho : s.operations[i]? = some o) :
    Transactional (s.answer o u) ↔
      (o.method = .select → ∃ v ∈ s.channel.channel, v ∈ s.selected ∨ u = v) := by
  have hlt := h.transactions o (List.mem_of_getElem? ho)
  by_cases hm : o.method = .select
  · have hmem : .started ∈ (s.answer o u).transactions := by
      simp only [State.answer, hm]
      exact List.mem_set hlt _
    have hsel : Transactional (s.answer o u) ↔ (s.answer o u).Selected := forall_prop_of_true hmem
    rw [hsel]
    simp only [State.Selected, State.answer, hm, if_true, List.mem_cons, forall_const, or_comm,
      eq_comm]
  · refine iff_of_true (fun hmem => ?_) fun he => absurd he hm
    have hne : o.method.state ≠ .started := by
      cases hc : o.method with
      | select => exact absurd hc hm
      | rollback | commit => exact TransactionState.noConfusion
    simp only [State.answer] at hmem
    rcases List.mem_or_eq_of_mem_set hmem with hmem | he
    · simpa only [State.Selected, State.answer, if_neg hm] using hs hmem
    · exact absurd he.symm hne

theorem transactional_step_iff (h : Known s) (hs : Transactional s) (hst : step s a = some t) :
    Transactional t ↔ Kept s a := by
  cases step_cases hst with
  | lifecycle hl =>
    rcases channel_step hl with ⟨i, c, u, rfl, ht, hc⟩ | ⟨⟨i, rfl⟩, hc⟩ | ⟨⟨hn, hd⟩, hc⟩
    · constructor
      · intro htr hm
        obtain ⟨v, hv, hsel⟩ := htr hm
        obtain rfl : u = v := Option.some.inj (hc.symm.trans hv)
        exact h.issued.unopened i c u ht (h.selected u hsel)
      · exact fun hk hm => absurd hm hk
    · constructor
      · intro htr hm
        obtain ⟨v, hv, -⟩ := htr hm
        cases hc.symm.trans hv
      · exact fun hk hm => absurd hm hk
    · refine iff_of_true (fun hm => ?_) (kept_lifecycle hn hd)
      rw [State.Selected]
      simp only [hc]
      exact hs hm
  | transaction =>
    refine iff_of_true (fun hm => ?_) trivial
    rcases List.mem_append.mp hm with hm | hm
    · exact hs hm
    · cases List.mem_singleton.mp hm
  | call | connected | notOpened | raised => exact iff_of_true hs trivial
  | answered ho hp => exact (transactional_answer_iff h hs ho).trans (kept_answered_iff ho hp).symm

theorem fresh_transactional : Transactional (fresh publisherConfirms) := by
  intro hm
  cases hm

/-- In every state of a run the started transactions are on a selected underlay channel exactly
when each step of the run meets the condition. -/
theorem transactional_throughout_iff :
    Throughout step Transactional (fresh publisherConfirms) as ↔
      EachStep step Kept (fresh publisherConfirms) as :=
  throughout_iff_eachStep (fun _ _ _ h _ hst _ => known_step h hst)
    (fun _ _ _ => transactional_step_iff) fresh_known fresh_transactional

theorem transactional_of_reach (h : Reach (· = fresh publisherConfirms) step Kept s) :
    Transactional s := by
  refine (h.invariant (I := fun s => Known s ∧ Transactional s) ?_ ?_).2
  · rintro s rfl
    exact ⟨fresh_known, fresh_transactional⟩
  · intro s a t hs hk hst
    exact ⟨known_step hs.1 hst, (transactional_step_iff hs.1 hs.2 hst).mpr hk⟩

theorem underlay_kept (hm : .started ∈ s.transactions) (hk : Kept s a) (hst : step s a = some t) :
    t.channel.channel = s.channel.channel := by
  cases step_cases hst with
  | lifecycle hl =>
    rcases channel_step hl with ⟨i, c, u, rfl, -⟩ | ⟨⟨i, rfl⟩, -⟩ | ⟨-, hc⟩
    · exact absurd hm hk
    · exact absurd hm hk
    · exact hc
  | transaction | call | connected | notOpened | answered | raised => rfl

/-- In every run in which the underlay channel is replaced and dropped only while no transaction is
started, and which sees no select answered that was sent on another underlay channel, a transaction
that is started when nothing is in progress is on a selected underlay channel. It stays there as
long as it is started, with all that is published and with its commit or rollback. -/
theorem started_on_selected (h : Reach (· = fresh publisherConfirms) step Kept s) :
    Quiet s → ∀ k : ℕ, s.transactions[k]? = some .started →
      ∃ u, s.channel.channel = some u ∧ u ∈ s.selected ∧
        ∀ as t, Run step (fun s a => Kept s a ∧ s.transactions[k]? = some .started) s as t →
          t.channel.channel = some u := by
  intro _ k hk
  obtain ⟨u, hu, hsel⟩ := transactional_of_reach h (List.mem_of_getElem? hk)
  refine ⟨u, hu, hsel, fun as t hr => ?_⟩
  refine hr.invariant (I := fun s => s.channel.channel = some u) ?_ hu
  intro s a t hs ho hst
  exact (underlay_kept (List.mem_of_getElem? ho.2) ho.1 hst).trans hs

theorem quiet_of_done (ho : ∀ o ∈ s.operations, o.pc.Done)
    (ht : ∀ t ∈ s.channel.tasks, t.pc.Done)
    (hc : ∀ u ∈ s.channel.underlays, u.closeCallback ≠ .running) : Quiet s :=
  ⟨ho, fun t hm _ _ => ht t hm, hc⟩

/-- The broker closes the channel, and the close callback restores it. -/
def restored : List Action :=
  [.lifecycle (.closed 0 (some .other)), .lifecycle (.callbackStarted 0), .lifecycle (.locked 1),
    .lifecycle (.connected 1), .lifecycle (.created 1), .lifecycle (.opened 1),
    .lifecycle (.returned 1), .lifecycle (.callbackEnded 0)]

/-- A transaction of an initialised channel is started. -/
def selectedOnce : List Action :=
  [.lifecycle (.call .initialization), .lifecycle (.connected 0), .lifecycle (.created 0),
    .lifecycle (.opened 0), .lifecycle (.returned 0), .transaction, .call 0 .select, .connected 0,
    .answered 0]

/-- The transaction is committed before the channel is closed, and started again afterwards. -/
def committedInTime : List Action :=
  selectedOnce ++ [.call 0 .commit, .connected 1, .answered 1] ++ restored ++
    [.call 0 .select, .connected 2, .answered 2]

theorem started_after_restore : ∃ s,
    checked step Kept (fresh false) committedInTime = some s ∧ s.channel.channel = some 1 ∧
      ∃ u, s.channel.channel = some u ∧ u ∈ s.selected ∧
        ∀ as t, Run step (fun s a => Kept s a ∧ s.transactions[0]? = some .started) s as t →
          t.channel.channel = some u :=
  ⟨_, rfl, rfl, started_on_selected
    (show Reach (· = fresh false) step Kept _ from Reach.of_checked committedInTime rfl rfl)
    (quiet_of_done (by decide) (by decide) (by decide)) 0 rfl⟩

/-- After a restore a transaction is started on an underlay channel that was never selected. -/
theorem started_on_unselected : ∃ s,
    checked step (fun _ _ => True) (fresh false) (selectedOnce ++ restored) = some s ∧ Quiet s ∧
      s.transactions[0]? = some .started ∧ s.channel.channel = some 1 ∧ 1 ∉ s.selected :=
  ⟨_, rfl, quiet_of_done (by decide) (by decide) (by decide), rfl, rfl, by decide⟩

end AioPika.Transactions
