import AioPika.Channel.Firings

/-! # Closing an underlay channel

The one-shot callback of an underlay channel starts a task at its first call, and
sets `finished` after the wrapped callback is over. `close()` waits for this, as
often as it is called and by whatever futures the callback is called meanwhile.
-/

namespace AioPika.UnderlayChannel

open Transition

open Firings (ClosingFuture)

inductive TaskPc (A : Type) where
  /-- It will run `__task_inner` with these arguments. -/
  | created (args : A)
  /-- `await self.callback(*args, **kwargs)` -/
  | running
  | done
  deriving DecidableEq, Repr

structure Body (A : Type) where
  args : A
  ended : Bool
  deriving DecidableEq, Repr

/-- Where a call of `close()` is. -/
inductive CloserPc where
  /-- `await self.channel.close(exc)` -/
  | closing
  /-- `await self.close_callback.wait()` -/
  | waiting
  | returned
  | raised
  deriving DecidableEq, Repr

structure State (A : Type) where
  /-- `__task` -/
  task : Option (TaskPc A)
  /-- `__lock` is locked. -/
  locked : Bool
  /-- `finished` is set. -/
  finished : Bool
  /-- How often the loop is going to call `finished.set`. -/
  setting : ℕ
  /-- The calls of the one-shot callback. -/
  calls : List (ClosingFuture × A)
  bodies : List (Body A)
  closers : List CloserPc
  deriving DecidableEq, Repr

variable {A : Type}

inductive Action (A : Type) where
  /-- The future calls the one-shot callback. -/
  | called (future : ClosingFuture) (args : A)
  /-- The task runs for the first time. -/
  | entered
  /-- The wrapped callback returns or raises. -/
  | ended
  /-- The task is cancelled before it has run. -/
  | cancelled
  /-- The loop calls `finished.set`. -/
  | finished
  /-- `close()` -/
  | close
  /-- `channel.close()` returns. -/
  | channelClosed (closer : ℕ)
  /-- `wait()` returns. -/
  | waited (closer : ℕ)
  /-- The await of `close()` raises, or is cancelled. -/
  | raised (closer : ℕ)
  deriving DecidableEq, Repr

/-- `create` has added the one-shot callback. -/
def create : State A := ⟨none, false, false, 0, [], [], []⟩

def State.setCloser (s : State A) (i : ℕ) (pc : CloserPc) : State A :=
  { s with closers := s.closers.set i pc }

/-- `close()` takes the one-shot callback from the futures when it returns; here they may call it
for ever. -/
def step (s : State A) : Action A → Option (State A)
  | .called future args =>
    let t := { s with calls := s.calls ++ [(future, args)] }
    if s.finished ∨ s.task.isSome then some t else some { t with task := some (.created args) }
  | .entered =>
    match s.task with
    | some (.created args) =>
      if s.locked then none
      else if s.finished then some { s with task := some .done }
      else some { s with
        task := some .running
        locked := true
        bodies := s.bodies ++ [⟨args, false⟩] }
    | _ => none
  | .ended =>
    match s.task with
    | some .running => some { s with
        task := some .done
        locked := false
        setting := s.setting + 1
        bodies := s.bodies.modify (s.bodies.length - 1) fun b => { b with ended := true } }
    | _ => none
  | .cancelled =>
    match s.task with
    | some (.created _) => some { s with task := some .done }
    | _ => none
  | .finished =>
    match s.setting with
    | 0 => none
    | n + 1 => some { s with finished := true, setting := n }
  | .close => some { s with closers := s.closers ++ [if s.finished then .returned else .closing] }
  | .channelClosed i =>
    if s.closers[i]? = some .closing then
      some (s.setCloser i (if s.finished then .returned else .waiting))
    else none
  | .waited i =>
    if s.closers[i]? = some .waiting ∧ s.finished then some (s.setCloser i .returned) else none
  | .raised i =>
    if s.closers[i]? = some .closing ∨ s.closers[i]? = some .waiting then
      some (s.setCloser i .raised)
    else none

/-- How far the one-shot callback is. Before `finished` is set no `close()` has returned. -/
inductive Progress : State A → Prop
  | idle {cs : List CloserPc} (hcs : .returned ∉ cs) :
      Progress ⟨none, false, false, 0, [], [], cs⟩
  | created {f : ClosingFuture} {args : A} {calls : List (ClosingFuture × A)}
      {cs : List CloserPc} (hcs : .returned ∉ cs) :
      Progress ⟨some (.created args), false, false, 0, (f, args) :: calls, [], cs⟩
  | cancelled {calls : List (ClosingFuture × A)} {cs : List CloserPc} (hcs : .returned ∉ cs) :
      Progress ⟨some .done, false, false, 0, calls, [], cs⟩
  | running {f : ClosingFuture} {args : A} {calls : List (ClosingFuture × A)}
      {cs : List CloserPc} (hcs : .returned ∉ cs) :
      Progress ⟨some .running, true, false, 0, (f, args) :: calls, [⟨args, false⟩], cs⟩
  | ended {f : ClosingFuture} {args : A} {calls : List (ClosingFuture × A)}
      {cs : List CloserPc} (hcs : .returned ∉ cs) :
      Progress ⟨some .done, false, false, 1, (f, args) :: calls, [⟨args, true⟩], cs⟩
  | finished {f : ClosingFuture} {args : A} {calls : List (ClosingFuture × A)}
      {cs : List CloserPc} :
      Progress ⟨some .done, false, true, 0, (f, args) :: calls, [⟨args, true⟩], cs⟩

def stage (exc : A → Option Raised) (s : State A) : OneShotCallback :=
  match s.task with
  | none => .idle
  | some (.created args) => .scheduled (exc args)
  | some .running => .running
  | some .done => if s.finished then .finished else .running

inductive Advances : OneShotCallback → OneShotCallback → Prop
  | called (exc : Option Raised) : Advances .idle (.scheduled exc)
  | entered (exc : Option Raised) : Advances (.scheduled exc) .running
  | finished : Advances .running .finished

variable {s t : State A} {a : Action A}

section Steps

theorem closer_cases {i : ℕ} (h : step s a = some t)
    (ha : a = .close ∨ a = .channelClosed i ∨ a = .waited i ∨ a = .raised i) :
    t = { s with closers := t.closers } ∧
      (.returned ∈ t.closers → .returned ∈ s.closers ∨ s.finished = true) := by
  have hset : ∀ pc, (pc = .returned → s.finished = true) →
      .returned ∈ (s.setCloser i pc).closers → .returned ∈ s.closers ∨ s.finished = true := by
    intro pc hpc hm
    rcases List.mem_or_eq_of_mem_set hm with hm | hm
    · exact Or.inl hm
    · exact Or.inr (hpc hm.symm)
  rcases ha with rfl | rfl | rfl | rfl
  · obtain rfl := Option.some.inj h
    refine ⟨rfl, fun hm => ?_⟩
    rcases List.mem_append.mp hm with hm | hm
    · exact Or.inl hm
    · refine Or.inr ?_
      have hpc := List.mem_singleton.mp hm
      split at hpc
      · assumption
      · cases hpc
  · simp only [step] at h
    split at h
    · obtain rfl := Option.some.inj h
      refine ⟨rfl, hset _ fun hpc => ?_⟩
      split at hpc
      · assumption
      · cases hpc
    · cases h
  · simp only [step] at h
    split at h
    · rename_i hw
      obtain rfl := Option.some.inj h
      exact ⟨rfl, hset _ fun _ => hw.2⟩
    · cases h
  · simp only [step] at h
    split at h
    · obtain rfl := Option.some.inj h
      exact ⟨rfl, hset _ fun hpc => by cases hpc⟩
    · cases h

theorem Progress.closers (h : Progress s) {cs : List CloserPc}
    (hcs : .returned ∈ cs → .returned ∈ s.closers ∨ s.finished = true) :
    Progress { s with closers := cs } := by
  have hnone (hf : s.finished = false) (hs : .returned ∉ s.closers) : .returned ∉ cs := by
    intro hm
    rcases hcs hm with hm | ht
    · exact hs hm
    · exact absurd (hf.symm.trans ht) Bool.false_ne_true
  cases h with
  | idle h => exact .idle (hnone rfl h)
  | created h => exact .created (hnone rfl h)
  | cancelled h => exact .cancelled (hnone rfl h)
  | running h => exact .running (hnone rfl h)
  | ended h => exact .ended (hnone rfl h)
  | finished => exact .finished

theorem Progress.step (h : Progress s) (hs : UnderlayChannel.step s a = some t) :
    Progress t := by
  have hclose {i : ℕ}
      (ha : a = .close ∨ a = .channelClosed i ∨ a = .waited i ∨ a = .raised i) : Progress t := by
    obtain ⟨ht, hcs⟩ := closer_cases hs ha
    rw [ht]
    exact h.closers hcs
  cases a with
  | called future args =>
    cases h with
    | idle hcs =>
      obtain rfl := Option.some.inj hs
      exact .created hcs
    | created hcs =>
      obtain rfl := Option.some.inj hs
      exact .created hcs
    | cancelled hcs =>
      obtain rfl := Option.some.inj hs
      exact .cancelled hcs
    | running hcs =>
      obtain rfl := Option.some.inj hs
      exact .running hcs
    | ended hcs =>
      obtain rfl := Option.some.inj hs
      exact .ended hcs
    | finished =>
      obtain rfl := Option.some.inj hs
      exact .finished
  | entered =>
    cases h with
    | created hcs =>
      obtain rfl := Option.some.inj hs
      exact .running hcs
    | _ => cases hs
  | ended =>
    cases h with
    | running hcs =>
      obtain rfl := Option.some.inj hs
      exact .ended hcs
    | _ => cases hs
  | cancelled =>
    cases h with
    | created hcs =>
      obtain rfl := Option.some.inj hs
      exact .cancelled hcs
    | _ => cases hs
  | finished =>
    cases h with
    | ended =>
      obtain rfl := Option.some.inj hs
      exact .finished
    | _ => cases hs
  | close => exact hclose (i := 0) (Or.inl rfl)
  | channelClosed i => exact hclose (Or.inr (Or.inl rfl))
  | waited i => exact hclose (Or.inr (Or.inr (Or.inl rfl)))
  | raised i => exact hclose (Or.inr (Or.inr (Or.inr rfl)))

end Steps

theorem progress_of_reach (h : Reach (· = create) step (fun _ _ => True) s) : Progress s := by
  apply h.invariant
  · rintro s rfl
    exact .idle List.not_mem_nil
  · intro s a t hp _ hs
    exact hp.step hs

/-- The wrapped callback is started once at most, with the arguments of the first call, and is
over whenever a `close()` has returned. -/
theorem close_awaits_callback (h : Reach (· = create) step (fun _ _ => True) s) :
    s.bodies.length ≤ 1 ∧
    (∀ b ∈ s.bodies, s.calls.head?.map Prod.snd = some b.args) ∧
    ∀ i : ℕ, s.closers[i]? = some .returned → ∃ b ∈ s.bodies, b.ended = true := by
  have hnone {cs : List CloserPc} (hcs : .returned ∉ cs) {i : ℕ} {P : Prop}
      (hi : cs[i]? = some .returned) : P := absurd (List.mem_of_getElem? hi) hcs
  cases progress_of_reach h with
  | idle hcs => exact ⟨Nat.zero_le _, by simp, fun _ => hnone hcs⟩
  | created hcs => exact ⟨Nat.zero_le _, by simp, fun _ => hnone hcs⟩
  | cancelled hcs => exact ⟨Nat.zero_le _, by simp, fun _ => hnone hcs⟩
  | running hcs => exact ⟨Nat.le_refl _, by simp, fun _ => hnone hcs⟩
  | ended hcs => exact ⟨Nat.le_refl _, by simp, fun _ => hnone hcs⟩
  | finished => exact ⟨Nat.le_refl _, by simp, fun _ _ => ⟨_, List.mem_cons_self, rfl⟩⟩

/-- Both futures call the callback of an underlay channel that is closed twice. -/
def closedTwice : List (Action ℕ) :=
  [.close, .called .channel 7, .channelClosed 0, .called .connection 8, .entered, .close, .ended,
    .finished, .waited 0, .channelClosed 1]

theorem closed_twice : ∃ s, checked step (fun _ _ => True) create closedTwice = some s ∧
    s.closers = [.returned, .returned] ∧ (∃ b ∈ s.bodies, b.ended = true) ∧
    s.bodies.length ≤ 1 := by
  have hr : checked step (fun _ _ => True) create closedTwice = some
      ⟨some .done, false, true, 0, [(.channel, 7), (.connection, 8)], [⟨7, true⟩],
        [.returned, .returned]⟩ := rfl
  obtain ⟨hl, -, hret⟩ := close_awaits_callback (Reach.of_checked closedTwice rfl hr)
  exact ⟨_, hr, rfl, hret 0 rfl, hl⟩

/-- The callback of an underlay channel goes through the stages of `OneShotCallback`. -/
theorem stage_step (exc : A → Option Raised) (h : Progress s) (hs : step s a = some t) :
    stage exc t = stage exc s ∨ Advances (stage exc s) (stage exc t) := by
  have hkeep {i : ℕ} (ha : a = .close ∨ a = .channelClosed i ∨ a = .waited i ∨ a = .raised i) :
      stage exc t = stage exc s := by
    rw [(closer_cases hs ha).1]
    rfl
  cases a with
  | called future args =>
    cases h with
    | idle =>
      obtain rfl := Option.some.inj hs
      exact Or.inr (.called _)
    | _ =>
      obtain rfl := Option.some.inj hs
      exact Or.inl rfl
  | entered =>
    cases h with
    | created =>
      obtain rfl := Option.some.inj hs
      exact Or.inr (.entered _)
    | _ => cases hs
  | ended =>
    cases h with
    | running =>
      obtain rfl := Option.some.inj hs
      exact Or.inl rfl
    | _ => cases hs
  | cancelled =>
    cases h with
    | created =>
      obtain rfl := Option.some.inj hs
      exact Or.inr (.entered _)
    | _ => cases hs
  | finished =>
    cases h with
    | ended =>
      obtain rfl := Option.some.inj hs
      exact Or.inr .finished
    | _ => cases hs
  | close => exact Or.inl (hkeep (i := 0) (Or.inl rfl))
  | channelClosed i => exact Or.inl (hkeep (Or.inr (Or.inl rfl)))
  | waited i => exact Or.inl (hkeep (Or.inr (Or.inr (Or.inl rfl))))
  | raised i => exact Or.inl (hkeep (Or.inr (Or.inr (Or.inr rfl))))

end AioPika.UnderlayChannel
