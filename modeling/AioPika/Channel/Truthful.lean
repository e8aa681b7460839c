import AioPika.Channel.Lifecycle

/-! # The restored flag

The flag of a robust channel lets the operations of the user through. It is set
in two places, and cleared by the close callbacks. It tells the truth as long as
it is set only while the close callback of the underlay channel has not been
entered: otherwise it hides the end of an underlay channel that nobody restores.
-/

namespace AioPika.Lifecycle

open Transition

/-- The underlay channel has been opened, and its close callback has not been entered. -/
def Fit (s : State) : Prop :=
  ∃ un ∈ s.current, un.opened = true ∧ ¬ un.closeCallback.HasRun

instance : DecidablePred Fit := fun s =>
  inferInstanceAs (Decidable (∃ un ∈ s.current, un.opened = true ∧ ¬ un.closeCallback.HasRun))

/-- The action sets the flag: at the end of `_on_open` or of `restore()`. -/
def SetsRestored (s : State) : Action → Prop
  | .opened _ => True
  | .returned i =>
    match s.tasks[i]? with
    | some ⟨.restore _, .reopened⟩ => True
    | _ => False
  | _ => False

instance (s : State) : DecidablePred (SetsRestored s) := fun a => by
  unfold SetsRestored
  split
  · infer_instance
  · split <;> infer_instance
  · infer_instance

/-- The flag is set only over a fit underlay channel, and an underlay channel that becomes the
current one or is dropped leaves it true. -/
structure Kept (s : State) (a : Action) : Prop where
  set : SetsRestored s a → Fit s
  created : ∀ i c u, a = .created i → s.tasks[i]? = some ⟨c, .creating u⟩ → s.restored = true →
    ∃ un ∈ s.underlays[u]?, ¬ un.closeCallback.HasRun
  cleaned : ∀ i, a = .cleaned i → s.restored = false

variable {s t : State} {a : Action} {i u v : ℕ} {old callback : OneShotCallback} {un : Underlay}

theorem Fit.append (h : Fit s) : Fit { s with underlays := s.underlays ++ [un] } := by
  obtain ⟨un', hc, hf⟩ := h
  obtain ⟨u, hu, hget⟩ := Option.bind_eq_some_iff.mp hc
  have hlt : u < s.underlays.length := (List.getElem?_eq_some_iff.mp hget).1
  exact ⟨un', Option.bind_eq_some_iff.mpr ⟨u, hu, (List.getElem?_append_left hlt).trans hget⟩, hf⟩

theorem Fit.setCallback (h : Fit s) (hv : s.callback v = some old)
    (hnew : ¬ old.HasRun → ¬ callback.HasRun) : Fit (s.setCallback v callback) := by
  obtain ⟨un, hc, ho, hr⟩ := h
  obtain ⟨u, hu, hget⟩ := Option.bind_eq_some_iff.mp hc
  by_cases he : v = u
  · subst he
    have hold : un.closeCallback = old := by
      rw [State.callback, hget] at hv
      exact Option.some.inj hv
    refine ⟨{ un with closeCallback := callback }, ?_, ho, hnew (hold ▸ hr)⟩
    refine Option.bind_eq_some_iff.mpr ⟨v, hu, ?_⟩
    simp only [State.setCallback, List.getElem?_modify, hget, if_true, Option.map_eq_map,
      Option.map_some]
  · refine ⟨un, Option.bind_eq_some_iff.mpr ⟨u, hu, ?_⟩, ho, hr⟩
    simp [State.setCallback, hget, he]

theorem fit_step (h : s.restored = true → Fit s) (hk : Kept s a) (hs : step s a = some t)
    (hr : t.restored = true) : Fit t := by
  cases step_cases hs with
  | restore | reopen | initialization | close | unopened | skipped | locked | returned | failed =>
    exact h hr
  | connected => exact (h hr).append
  | created ht =>
    rename_i i u c
    obtain ⟨un, hget, hn⟩ := hk.created i c u rfl ht hr
    refine ⟨{ un with opened := true }, Option.bind_eq_some_iff.mpr ⟨u, rfl, ?_⟩, rfl, hn⟩
    have hget : s.underlays[u]? = some un := hget
    simp only [State.setPc, List.getElem?_modify, hget, if_true, Option.map_eq_map,
      Option.map_some]
  | opened => exact hk.set trivial
  | restored ht =>
    have hf : Fit s := hk.set (by simp only [SetsRestored, ht])
    rw [Fit, unlock_current]
    exact hf
  | raised ht =>
    rw [unlock_restored] at hr
    rw [Fit, unlock_current]
    exact h hr
  | cleaned ht =>
    rw [unlock_restored] at hr
    cases (hk.cleaned _ rfl).symm.trans hr
  | closed hi => exact (h hr).setCallback hi fun _ => id
  | callbackStarted hi =>
    rw [closeCallback_restored] at hr
    cases hr
  | callbackEnded hi => exact (h hr).setCallback hi fun hn => absurd trivial hn

/-- Only the task that holds the lock is opening the channel, and the flag is not set before its
`_on_open` is through. -/
def Exclusive (s : State) : Prop :=
  ∀ i t, s.tasks[i]? = some t → t.pc.Opening →
    s.lock = some i ∧ (t.pc ≠ .reopened → s.restored = false)

theorem Exclusive.unique {task : Task} {j : ℕ} {task' : Task} (h : Exclusive s)
    (hi : s.tasks[i]? = some task) (ho : task.pc.Opening)
    (hj : s.tasks[j]? = some task') (ho' : task'.pc.Opening) : j = i :=
  Option.some.inj ((h j task' hj ho').1.symm.trans (h i task hi ho).1)

theorem Exclusive.advance {c : Call} {pc pc' : Pc} (h : Exclusive s)
    (hi : s.tasks[i]? = some ⟨c, pc⟩) (ho : pc.Opening)
    (ht : t.tasks = s.tasks.set i ⟨c, pc'⟩)
    (hnew : pc'.Opening → t.lock = some i ∧ (pc' ≠ .reopened → t.restored = false)) :
    Exclusive t := by
  intro j task hj hop
  rw [ht] at hj
  rcases task_setPc (s := s) hj with ⟨rfl, rfl⟩ | ⟨hne, hj⟩
  · exact hnew hop
  · exact absurd (h.unique hi ho hj hop) hne

theorem Exclusive.finish {c : Call} {pc : Pc} (h : Exclusive s) (hd : pc.Done) :
    Exclusive (s.setPc i c pc) := by
  intro j task hj hop
  rcases task_setPc hj with ⟨rfl, rfl⟩ | ⟨-, hj⟩
  · cases pc <;> first | exact hd.elim | exact hop.elim
  · exact h j task hj hop

theorem Exclusive.start {c : Call} {pc : Pc} (h : Exclusive s) (hn : ¬ pc.Opening) :
    Exclusive (s.start c pc) := by
  intro j task hj hop
  rcases task_start hj with hj | rfl
  · exact h j task hj hop
  · exact absurd hop hn

theorem Exclusive.unlock (h : Exclusive s)
    (hi : ∀ task, s.tasks[i]? = some task → ¬ task.pc.Opening) : Exclusive (s.unlock i) := by
  intro j task hj hop
  rw [unlock_tasks] at hj
  obtain ⟨hl, hr⟩ := h j task hj hop
  have hne : s.lock ≠ some i := by
    rintro he
    obtain rfl : i = j := Option.some.inj (he.symm.trans hl)
    exact hi task hj hop
  rw [unlock_restored, State.unlock, if_neg hne]
  exact ⟨hl, hr⟩

theorem setPc_self {c : Call} {pc : Pc} {task : Task} (h : (s.setPc i c pc).tasks[i]? = some task) :
    task = ⟨c, pc⟩ := by
  rcases task_setPc h with ⟨-, rfl⟩ | ⟨hne, -⟩
  · rfl
  · exact absurd rfl hne

theorem exclusive_step (h : Exclusive s) (hreopen : a ≠ .call .reopen)
    (hinit : a ≠ .call .initialization) (hs : step s a = some t) : Exclusive t := by
  cases step_cases hs with
  | restore => exact h.start id
  | reopen => exact absurd rfl hreopen
  | initialization => exact absurd rfl hinit
  | close => exact Exclusive.start (s := { s with closed := true }) h id
  | unopened => exact h.start id
  | skipped => exact h.finish trivial
  | locked ht hl hr =>
    intro j task hj hop
    rcases task_setPc hj with ⟨rfl, rfl⟩ | ⟨-, hj⟩
    · exact ⟨rfl, fun _ => hr⟩
    · -- nobody else is opening the channel while the lock is free
      cases hl.symm.trans (h j task hj hop).1
  | connected ht =>
    obtain ⟨hl, hr⟩ := h _ _ ht trivial
    exact h.advance ht trivial rfl fun _ => ⟨hl, fun _ => hr (by simp)⟩
  | created ht =>
    obtain ⟨hl, hr⟩ := h _ _ ht trivial
    exact h.advance ht trivial rfl fun _ => ⟨hl, fun _ => hr (by simp)⟩
  | opened ht =>
    obtain ⟨hl, -⟩ := h _ _ ht trivial
    refine h.advance ht trivial rfl fun hop => ⟨hl, fun hne => ?_⟩
    split at hop
    · exact hop.elim
    · rename_i hc
      rw [if_neg hc] at hne
      exact absurd rfl hne
  | restored ht =>
    refine Exclusive.unlock ?_ fun task hj => by rw [setPc_self hj]; exact id
    exact h.advance ht trivial rfl False.elim
  | returned => exact h.finish trivial
  | failed ht =>
    obtain ⟨hl, hr⟩ := h _ _ ht trivial
    exact h.advance ht trivial rfl fun _ => ⟨hl, fun _ => hr (by simp)⟩
  | raised =>
    refine Exclusive.unlock (h.finish ?_) fun task hj => by rw [setPc_self hj]; exact id
    trivial
  | cleaned ht =>
    refine Exclusive.unlock ?_ fun task hj => by rw [setPc_self hj]; exact id
    exact h.advance ht trivial rfl False.elim
  | closed => exact h
  | @callbackStarted u exc hi =>
    have hclear : ∀ {s : State}, Exclusive s → Exclusive { s with restored := false } :=
      fun h j task hj hop => ⟨(h j task hj hop).1, fun _ => rfl⟩
    rcases closeCallback_cases (s.setCallback u .running) u exc with he | he
    · rw [he]
      exact hclear h
    · rw [he]
      exact (hclear h).start id
  | callbackEnded => exact h

/-- While the user calls neither `reopen()` nor `initialize()`, only the flag matters. -/
theorem kept_of_exclusive (h : Exclusive s) (hset : SetsRestored s a → Fit s)
    (hs : step s a = some t) : Kept s a := by
  refine ⟨hset, ?_, ?_⟩
  · rintro i c u rfl ht hr
    have hf := (h i _ ht trivial).2 (by simp)
    cases hf.symm.trans hr
  · rintro i rfl
    cases step_cases hs with
    | cleaned ht => exact (h i _ ht trivial).2 (by simp)

/-- The user calls neither `reopen()` nor, after a failed restore, `initialize()` again, and the
flag is set only over a fit underlay channel. -/
def SetsTruthfully (s : State) (a : Action) : Prop :=
  a ≠ .call .reopen ∧ a ≠ .call .initialization ∧ (SetsRestored s a → Fit s)

instance (s : State) : DecidablePred (SetsTruthfully s) := fun a =>
  inferInstanceAs (Decidable (a ≠ .call .reopen ∧ a ≠ .call .initialization ∧ (SetsRestored s a →
    Fit s)))

theorem Initialised.exclusive (h : Initialised s) : Exclusive s := by
  intro i task hi hop
  have hd := h.tasks task (List.mem_of_getElem? hi)
  cases hpc : task.pc <;> rw [hpc] at hd hop <;> first | exact hd.elim | exact hop.elim

theorem Initialised.fit (h : Initialised s) : Fit s := by
  obtain ⟨un, hc, ho, ha⟩ := h.underlay
  refine ⟨un, hc, ho, fun hr => ?_⟩
  cases hcb : un.closeCallback <;> rw [hcb] at ha hr <;> first | exact ha.elim | exact hr.elim

/-- In every run that sets the flag only over a fit underlay channel, a channel whose flag is
set is open whenever nothing is in progress. -/
theorem restored_truthful (h : Reach Initialised step SetsTruthfully s) (hi : Idle s) :
    s.restored = true → ∃ un ∈ s.current, un.IsOpen := by
  have hinv : Exclusive s ∧ (s.restored = true → Fit s) := by
    apply h.invariant (I := fun s => Exclusive s ∧ (s.restored = true → Fit s))
    · intro s hi
      exact ⟨hi.exclusive, fun _ => hi.fit⟩
    · rintro s a t ⟨hx, hf⟩ ⟨hreopen, hinit, hset⟩ hs
      exact ⟨exclusive_step hx hreopen hinit hs, fit_step hf (kept_of_exclusive hx hset hs) hs⟩
  intro hr
  obtain ⟨un, hc, ho, hn⟩ := hinv.2 hr
  obtain ⟨u, -, hget⟩ := Option.bind_eq_some_iff.mp hc
  have hp := hi.callbacks un (List.mem_of_getElem? hget)
  exact ⟨un, hc, ho, OneShotCallback.armed_of_not_hasRun hn hp⟩

/-- No operation raises, and the user does not call `reopen()`. -/
def Succeeds (_ : State) : Action → Prop
  | .raised _ _ => False
  | .call .reopen => False
  | _ => True

instance (s : State) : DecidablePred (Succeeds s) := fun a => by
  unfold Succeeds
  split <;> infer_instance

def initialised : State :=
  ⟨some 0, false, true, none, [⟨true, .idle⟩], [⟨.initialization, .returned⟩]⟩

example : checked step Succeeds fresh
    [.call .initialization, .connected 0, .created 0, .opened 0, .returned 0] = some initialised :=
  rfl

theorem initialised_initialised : Initialised initialised :=
  ⟨by decide, by decide, ⟨_, rfl, rfl, trivial⟩, rfl, rfl, rfl⟩

/-- The broker closes the channel, and its close callback restores it. -/
def closedOnce : List Action :=
  [.closed 0 (some .other), .callbackStarted 0, .locked 1, .connected 1, .created 1, .opened 1,
    .returned 1, .callbackEnded 0]

/-- The broker closes the new underlay channel as well, while the reopen callbacks run. -/
def closedDuringRestore : List Action :=
  [.closed 0 (some .other), .callbackStarted 0, .locked 1, .connected 1, .created 1, .opened 1,
    .closed 1 (some .other), .callbackStarted 1, .returned 1, .callbackEnded 0, .locked 2,
    .callbackEnded 1]

theorem closed_once : ∃ s, checked step SetsTruthfully initialised closedOnce = some s ∧
    s.restored = true ∧ ∃ un ∈ s.current, un.IsOpen :=
  ⟨_, rfl, rfl, restored_truthful (Reach.of_checked closedOnce initialised_initialised rfl)
    ⟨by decide, by decide⟩ rfl⟩

/-- The restore sets the flag that the second close callback has cleared; that callback then
takes the channel for restored. -/
theorem closed_during_restore : ∃ s, Reach Initialised step Succeeds s ∧ Idle s ∧
    s.restored = true ∧ ¬ ∃ un ∈ s.current, un.IsOpen := by
  refine ⟨_, Reach.of_checked closedDuringRestore initialised_initialised rfl,
    ⟨by decide, by decide⟩, rfl, ?_⟩
  rintro ⟨un, hc, -, ha⟩
  obtain rfl := Option.some.inj hc
  exact ha

end AioPika.Lifecycle
