import AioPika.Channel.Truthful

/-! # One attempt to restore a channel

A `restore()` that holds the lock opens one underlay channel, and nobody else
opens one unless `reopen()` or `initialize()` is called. If its `_on_open` raises,
the underlay channel is closed again before the lock is given back, and the
restored flag has stayed clear.
-/

namespace AioPika.Lifecycle

/-- `restore()` has acquired the lock and is going to open the channel, and nobody else is opening
it. -/
structure Acquired (i : ℕ) (s : State) : Prop where
  task : ∃ caller, s.tasks[i]? = some ⟨.restore caller, .connecting⟩
  lock : s.lock = some i
  restored : s.restored = false
  alone : ∀ j t, s.tasks[j]? = some t → t.pc.Opening → j = i

/-- Nobody else opens the channel, or acquires the lock next, and neither the close of an underlay
channel that could not be opened nor `reopen_callbacks` is cancelled. -/
def Alone (s : State) : Action → Prop
  | .call .reopen | .call .initialization | .locked _ => False
  | .raised i _ =>
    match s.tasks[i]? with
    | some ⟨.restore _, .cleaning _ _⟩ | some ⟨.restore _, .reopened⟩ => False
    | _ => True
  | _ => True

instance (s : State) : DecidablePred (Alone s)
  | .call .reopen | .call .initialization | .locked _ => .isFalse id
  | .call (.restore _) | .call .close => .isTrue trivial
  | .raised i _ =>
    match h : s.tasks[i]? with
    | some ⟨.restore _, .cleaning _ _⟩ | some ⟨.restore _, .reopened⟩ =>
      .isFalse (by rw [Alone, h]; exact id)
    | none | some ⟨.reopen, _⟩ | some ⟨.initialization, _⟩ | some ⟨.close, _⟩
    | some ⟨.restore _, .locking⟩ | some ⟨.restore _, .connecting⟩ | some ⟨.restore _, .creating _⟩
    | some ⟨.restore _, .onOpen _⟩ | some ⟨.restore _, .initialized⟩ | some ⟨.restore _, .closing _⟩
    | some ⟨.restore _, .returned⟩ | some ⟨.restore _, .raised _⟩ =>
      .isTrue (by rw [Alone, h]; trivial)
  | .connected _ | .created _ | .opened _ | .cleaned _ | .returned _ | .closed _ _
  | .callbackStarted _ | .callbackEnded _ => .isTrue trivial

/-- Of the underlay channels from the `n`-th on, only this one may be open. -/
def ShutBut (n : ℕ) (u : Option ℕ) (underlays : List Underlay) : Prop :=
  ∀ v un, n ≤ v → underlays[v]? = some un → un.IsOpen → u = some v

section Requests

variable {ρ : Type*}

def Begun (plans : List ρ → Prop) (issued : List ρ) : Prop :=
  issued = [] ∨ ∃ plan, plans plan ∧ issued <+: plan

/-- What holds at each place of the attempt, where `n` underlay channels are older than it and
`_on_open` issues one of the plans. -/
def Stage (i n : ℕ) (plans : List ρ → Prop) (issued : List ρ) (s : State) : Pc → Prop
  | .connecting | .creating _ =>
    s.lock = some i ∧ s.restored = false ∧ ShutBut n none s.underlays ∧ issued = []
  | .onOpen u =>
    s.lock = some i ∧ s.restored = false ∧ ShutBut n (some u) s.underlays ∧ issued = []
  | .cleaning u _ =>
    s.lock = some i ∧ s.restored = false ∧ ShutBut n (some u) s.underlays ∧ Begun plans issued
  | .raised _ =>
    s.lock = none ∧ s.restored = false ∧ ShutBut n none s.underlays ∧ Begun plans issued
  | .reopened | .returned => plans issued
  | .locking | .initialized | .closing _ => False

structure Attempt (i n : ℕ) (plans : List ρ → Prop) (issued : List ρ) (s : State) : Prop where
  alone : ∀ j t, s.tasks[j]? = some t → t.pc.Opening → j = i
  stage : ∃ caller pc, s.tasks[i]? = some ⟨.restore caller, pc⟩ ∧ Stage i n plans issued s pc

end Requests

variable {ρ : Type*} {plans : List ρ → Prop} {issued issued' : List ρ} {s t : State} {a : Action}
  {i j n u v : ℕ} {c : Call} {pc pc' : Pc} {o : Option ℕ} {underlays : List Underlay}
  {un : Underlay} {callback : OneShotCallback} {exc : Raised}

section Shut

theorem ShutBut.append (h : ShutBut n o underlays) (hn : ¬ un.IsOpen) :
    ShutBut n o (underlays ++ [un]) := by
  intro v un' hv hget ho
  rcases Members.of_append hget with hget | ⟨-, rfl⟩
  · exact h v un' hv hget ho
  · exact absurd ho hn

theorem ShutBut.created (h : ShutBut n none underlays) :
    ShutBut n (some u) (underlays.modify u fun un => { un with opened := true }) := by
  intro v un hv hget ho
  by_cases he : u = v
  · rw [he]
  · have hget : underlays[v]? = some un := by
      simpa [he] using hget
    cases h v un hv hget ho

theorem ShutBut.setCallback (h : ShutBut n o s.underlays) (hn : ¬ callback.Armed) :
    ShutBut n o (s.setCallback v callback).underlays := by
  intro w un hw hget ho
  by_cases he : v = w
  · subst he
    obtain ⟨old, -, rfl⟩ : ∃ old, s.underlays[v]? = some old ∧
        { old with closeCallback := callback } = un := by
      simpa [State.setCallback] using hget
    exact absurd ho.2 hn
  · have hget : s.underlays[w]? = some un := by
      simpa [State.setCallback, he] using hget
    exact h w un hw hget ho

theorem ShutBut.finished (h : ShutBut n (some u) s.underlays)
    (hf : s.callback u = some .finished) : ShutBut n none s.underlays := by
  intro v un hv hget ho
  obtain rfl : u = v := Option.some.inj (h v un hv hget ho)
  rw [State.callback, hget] at hf
  have hf : un.closeCallback = .finished := Option.some.inj hf
  have ha := ho.2
  rw [hf] at ha
  exact absurd ha id

end Shut

section Frame

theorem unlock_self (h : s.lock = some i) : (s.unlock i).lock = none := by
  rw [State.unlock, if_pos h]

theorem unlock_other (h : s.lock ≠ some j) : (s.unlock j).lock = s.lock := by
  rw [State.unlock, if_neg h]

theorem Stage.frame (h : Stage i n plans issued s pc)
    (hheld : s.lock = some i → t.lock = some i) (hfree : s.lock = none → t.lock = none)
    (hr : s.restored = false → t.restored = false)
    (hu : ∀ o, ShutBut n o s.underlays → ShutBut n o t.underlays) :
    Stage i n plans issued t pc := by
  cases pc with
  | connecting | creating | onOpen | cleaning =>
    obtain ⟨hl, hrest, hshut, hi⟩ := h
    exact ⟨hheld hl, hr hrest, hu _ hshut, hi⟩
  | raised =>
    obtain ⟨hl, hrest, hshut, hi⟩ := h
    exact ⟨hfree hl, hr hrest, hu _ hshut, hi⟩
  | reopened | returned => exact h
  | locking | initialized | closing => exact h

theorem alone_setPc (h : ∀ k t, s.tasks[k]? = some t → t.pc.Opening → k = i)
    (hpc : pc.Opening → j = i) :
    ∀ k t, (s.setPc j c pc).tasks[k]? = some t → t.pc.Opening → k = i := by
  intro k task hk ho
  rcases task_setPc hk with ⟨rfl, rfl⟩ | ⟨-, hk⟩
  · exact hpc ho
  · exact h k task hk ho

theorem alone_start (h : ∀ k t, s.tasks[k]? = some t → t.pc.Opening → k = i)
    (hpc : ¬ pc.Opening) :
    ∀ k t, (s.start c pc).tasks[k]? = some t → t.pc.Opening → k = i := by
  intro k task hk ho
  rcases task_start hk with hk | rfl
  · exact h k task hk ho
  · exact absurd ho hpc

theorem Attempt.start (h : Attempt i n plans issued s) (hpc : ¬ pc.Opening) :
    Attempt i n plans issued (s.start c pc) := by
  obtain ⟨caller, pc', ht, hst⟩ := h.stage
  have hlt : i < s.tasks.length := (List.getElem?_eq_some_iff.mp ht).1
  exact ⟨alone_start h.alone hpc, caller, pc', (List.getElem?_append_left hlt).trans ht,
    hst.frame id id id fun _ => id⟩

theorem Attempt.other (h : Attempt i n plans issued s) (hj : j ≠ i) (hpc : ¬ pc.Opening) :
    Attempt i n plans issued (s.setPc j c pc) := by
  obtain ⟨caller, pc', ht, hst⟩ := h.stage
  exact ⟨alone_setPc h.alone fun ho => absurd ho hpc, caller, pc',
    (List.getElem?_set_ne hj).trans ht, hst.frame id id id fun _ => id⟩

theorem Attempt.advance (h : Attempt i n plans issued s) {caller : Caller}
    (ht : s.tasks[i]? = some ⟨.restore caller, pc⟩)
    (htasks : t.tasks = s.tasks.set i ⟨.restore caller, pc'⟩)
    (hst : Stage i n plans issued' t pc') : Attempt i n plans issued' t := by
  have hlt : i < s.tasks.length := (List.getElem?_eq_some_iff.mp ht).1
  refine ⟨?_, caller, pc', ?_, hst⟩
  · intro k task hk ho
    rw [htasks] at hk
    rcases Members.of_set hk with ⟨rfl, -⟩ | ⟨-, hk⟩
    · rfl
    · exact h.alone k task hk ho
  · rw [htasks]
    exact List.getElem?_set_self hlt

theorem Attempt.opening (h : Attempt i n plans issued s) (ht : s.tasks[j]? = some ⟨c, pc⟩)
    (ho : pc.Opening) : j = i ∧ ∃ caller, c = .restore caller ∧ Stage i n plans issued s pc := by
  obtain rfl := h.alone j _ ht ho
  obtain ⟨caller, pc', ht', hst⟩ := h.stage
  obtain ⟨rfl, rfl⟩ : c = .restore caller ∧ pc = pc' := by
    simpa using ht.symm.trans ht'
  exact ⟨rfl, caller, rfl, hst⟩

theorem Attempt.closeCallback (h : Attempt i n plans issued s) {exc : Option Raised} :
    Attempt i n plans issued (s.closeCallback u exc) := by
  have h' : Attempt i n plans issued { s with restored := false } := by
    obtain ⟨caller, pc, ht, hst⟩ := h.stage
    exact ⟨h.alone, caller, pc, ht, hst.frame id id (fun _ => rfl) fun _ => id⟩
  rcases closeCallback_cases s u exc with he | he
  · rw [he]
    exact h'
  · rw [he]
    exact h'.start id

theorem Attempt.setCallback (h : Attempt i n plans issued s) (hn : ¬ callback.Armed) :
    Attempt i n plans issued (s.setCallback u callback) := by
  obtain ⟨caller, pc, ht, hst⟩ := h.stage
  exact ⟨h.alone, caller, pc, ht, hst.frame id id id fun _ hs => hs.setCallback hn⟩

end Frame

theorem Acquired.attempt (h : Acquired i s) :
    Attempt i s.underlays.length plans [] s := by
  obtain ⟨caller, ht⟩ := h.task
  refine ⟨h.alone, caller, .connecting, ht, h.lock, h.restored, ?_, rfl⟩
  intro v un hv hget _
  rw [List.getElem?_eq_none hv] at hget
  cases hget

section Steps

theorem Attempt.connected (h : Attempt i n plans issued s)
    (ht : s.tasks[j]? = some ⟨c, .connecting⟩) :
    Attempt i n plans issued
      (State.setPc { s with underlays := s.underlays ++ [⟨false, .idle⟩] } j c
        (.creating s.underlays.length)) := by
  obtain ⟨rfl, caller, rfl, hl, hr, hshut, hi⟩ := h.opening ht trivial
  have hnew : ¬ (⟨false, .idle⟩ : Underlay).IsOpen := fun ho => nomatch ho.1
  exact h.advance ht rfl ⟨hl, hr, hshut.append hnew, hi⟩

theorem Attempt.created (h : Attempt i n plans issued s)
    (ht : s.tasks[j]? = some ⟨c, .creating u⟩) :
    Attempt i n plans issued (State.setPc { s with
      underlays := s.underlays.modify u fun un => { un with opened := true }
      channel := some u } j c (.onOpen u)) := by
  obtain ⟨rfl, caller, rfl, hl, hr, hshut, hi⟩ := h.opening ht trivial
  exact h.advance ht rfl ⟨hl, hr, hshut.created, hi⟩

/-- `_on_open` raises when it has issued a beginning of a plan. -/
theorem Attempt.failed (h : Attempt i n plans issued s) (ht : s.tasks[j]? = some ⟨c, .onOpen u⟩)
    (hb : Begun plans issued') : Attempt i n plans issued' (s.setPc j c (.cleaning u exc)) := by
  obtain ⟨rfl, caller, rfl, hl, hr, hshut, -⟩ := h.opening ht trivial
  exact h.advance ht rfl ⟨hl, hr, hshut, hb⟩

/-- `_on_open` returns when it has issued a plan. -/
theorem Attempt.opened (h : Attempt i n plans issued s) (ht : s.tasks[j]? = some ⟨c, .onOpen u⟩)
    (hp : plans issued') : Attempt i n plans issued' (State.setPc
      { s with restored := true, closed := false } j c
      (if c = .initialization then .initialized else .reopened)) := by
  obtain ⟨rfl, caller, rfl, -⟩ := h.opening ht trivial
  exact h.advance ht rfl hp

theorem Attempt.cleaned (h : Attempt i n plans issued s)
    (ht : s.tasks[j]? = some ⟨c, .cleaning u exc⟩) (hf : s.callback u = some .finished) :
    Attempt i n plans issued
      (State.unlock (State.setPc { s with channel := none } j c (.raised exc)) j) := by
  obtain ⟨rfl, caller, rfl, hl, hr, hshut, hb⟩ := h.opening ht trivial
  have hfree : (State.unlock (State.setPc { s with channel := none } j (.restore caller)
      (.raised exc)) j).lock = none := unlock_self hl
  apply h.advance ht (by rw [unlock_tasks]; rfl)
  refine ⟨hfree, ?_, ?_, hb⟩
  · rw [unlock_restored]
    exact hr
  · rw [unlock_underlays]
    exact hshut.finished hf

theorem Attempt.raised (h : Attempt i n plans issued s) (hal : Alone s (.raised j exc))
    (ht : s.tasks[j]? = some ⟨c, pc⟩) (hr : pc.Raises exc) :
    Attempt i n plans issued ((s.setPc j c (.raised exc)).unlock j) := by
  obtain ⟨caller, pc', ht', hst⟩ := h.stage
  by_cases hj : j = i
  · subst hj
    obtain ⟨rfl, rfl⟩ : c = .restore caller ∧ pc = pc' := by
      simpa using ht.symm.trans ht'
    -- the underlay channel was not opened yet
    have hst' : s.lock = some j ∧ s.restored = false ∧ ShutBut n none s.underlays ∧
        issued = [] := by
      simp only [Alone, ht] at hal
      cases pc with
      | connecting | creating => exact hst
      | onOpen | returned | raised => exact absurd hr id
      | cleaning | reopened => exact absurd hal id
      | locking | initialized | closing => exact absurd hst id
    obtain ⟨hl, hrest, hshut, hi⟩ := hst'
    have hfree : ((s.setPc j (.restore caller) (.raised exc)).unlock j).lock = none :=
      unlock_self hl
    apply h.advance ht (by rw [unlock_tasks]; rfl)
    refine ⟨hfree, ?_, ?_, Or.inl hi⟩
    · rw [unlock_restored]
      exact hrest
    · rw [unlock_underlays]
      exact hshut
  · have ho : Attempt i n plans issued (s.setPc j c (.raised exc)) := h.other hj id
    obtain ⟨caller, pc', ht', hst⟩ := ho.stage
    have hlock : ∀ o, o = some i ∨ o = none → s.lock = o →
        ((s.setPc j c (.raised exc)).unlock j).lock = o := by
      rintro o ho hl
      have hne : (s.setPc j c (.raised exc)).lock ≠ some j := by
        have hl : (s.setPc j c (.raised exc)).lock = o := hl
        rw [hl]
        rintro rfl
        rcases ho with ho | ho
        · exact hj (Option.some.inj ho)
        · cases ho
      exact (unlock_other hne).trans hl
    refine ⟨?_, caller, pc', ?_, ?_⟩
    · rw [unlock_tasks]
      exact ho.alone
    · rw [unlock_tasks]
      exact ht'
    · apply hst.frame (hlock _ (Or.inl rfl)) (hlock _ (Or.inr rfl))
      · rw [unlock_restored]
        exact id
      · rw [unlock_underlays]
        exact fun _ => id

/-- A step of the channel that is not the end of `_on_open`. -/
theorem attempt_step (h : Attempt i n plans issued s) (hal : Alone s a)
    (ha : ∀ j, a ≠ .opened j) (hst : step s a = some t) : Attempt i n plans issued t := by
  cases step_cases hst with
  | restore => exact h.start id
  | reopen => exact absurd hal id
  | initialization => exact absurd hal id
  | close =>
    have h' : Attempt i n plans issued { s with closed := true } := ⟨h.alone, h.stage⟩
    exact h'.start id
  | unopened => exact h.start id
  | skipped => exact absurd hal id
  | locked => exact absurd hal id
  | connected ht => exact h.connected ht
  | created ht => exact h.created ht
  | opened => exact absurd rfl (ha _)
  | failed ht =>
    obtain ⟨rfl, caller, rfl, -, -, -, hi⟩ := h.opening ht trivial
    exact h.failed ht (Or.inl hi)
  | @restored j caller ht =>
    obtain ⟨rfl, caller, hc, hp⟩ := h.opening ht trivial
    apply h.advance ht (by rw [unlock_tasks]; rfl)
    exact hp
  | @returned j task ht hr =>
    obtain ⟨caller, pc, ht', -⟩ := h.stage
    have hj : j ≠ i := by
      rintro rfl
      obtain rfl := Option.some.inj (ht.symm.trans ht')
      exact hr
    exact h.other hj id
  | raised ht hr => exact h.raised hal ht hr
  | cleaned ht hf => exact h.cleaned ht hf
  | closed => exact h.setCallback id
  | callbackStarted => exact (h.setCallback id).closeCallback
  | callbackEnded => exact h.setCallback id

end Steps

end AioPika.Lifecycle
