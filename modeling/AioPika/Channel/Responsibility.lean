import AioPika.Channel.Lifecycle

/-! # Who restores a channel

When a close callback clears the restored flag it restores the channel itself, or
somebody is restoring the channel already. A restore that returns leaves the flag
set, so the flag stays clear without a restore in progress only after a close
callback that has given up.
-/

namespace AioPika.Lifecycle

/-- A restore that a close callback awaits. -/
def Call.IsRescue : Call → Prop
  | .restore (.callback _) => True
  | _ => False

instance : DecidablePred Call.IsRescue := fun c => by
  unfold Call.IsRescue
  split <;> infer_instance

def Rescued (tasks : List Task) : Prop := ∃ t ∈ tasks, t.call.IsRescue ∧ ¬ t.pc.Done

instance : DecidablePred Rescued := fun tasks =>
  inferInstanceAs (Decidable (∃ t ∈ tasks, t.call.IsRescue ∧ ¬ t.pc.Done))

/-- A call of `initialize()` has opened the channel. -/
def WasOpened (s : State) : Prop :=
  ∃ t ∈ s.tasks, t.call = .initialization ∧ (t.pc = .initialized ∨ t.pc = .returned)

/-- The coroutine that an action ends with an exception. -/
def raises (s : State) : Action → Option (ℕ × Call × Raised)
  | .raised i exc =>
    match s.tasks[i]? with
    | some ⟨_, .onOpen _⟩ => none
    | some t => some (i, t.call, exc)
    | none => none
  | .cleaned i =>
    match s.tasks[i]? with
    | some ⟨c, .cleaning _ exc⟩ => some (i, c, exc)
    | _ => none
  | _ => none

variable {s t : State} {a : Action} {i u : ℕ} {c : Call} {pc pc' : Pc} {task : Task}
  {exc : Raised} {P : Prop}

theorem Rescued.start (h : Rescued s.tasks) : Rescued (s.start c pc).tasks :=
  Members.exists_append h

theorem rescued_set_of_erase (h : Rescued (s.tasks.eraseIdx i)) :
    Rescued (s.setPc i c pc).tasks :=
  Members.exists_set_of_erase h

theorem Rescued.setPc (h : Rescued s.tasks) (ht : s.tasks[i]? = some ⟨c, pc'⟩)
    (hc : c.IsRescue → ¬ pc.Done) : Rescued (s.setPc i c pc).tasks :=
  Members.exists_set h ht fun hr => ⟨hr.1, hc hr.1⟩

theorem raises_of_raises (ht : s.tasks[i]? = some ⟨c, pc⟩) (hr : pc.Raises exc) :
    raises s (.raised i exc) = some (i, c, exc) := by
  simp only [raises, ht]
  cases pc with
  | onOpen => exact hr.elim
  | _ => rfl

theorem not_restore_of_returns (hr : s.Returns task) {caller : Caller} :
    task.call ≠ .restore caller := by
  unfold State.Returns at hr
  split at hr <;> first | exact hr.elim | simp

theorem wasOpened_of_start (hpc : ¬ (pc = .initialized ∨ pc = .returned))
    (h : WasOpened (s.start c pc)) : WasOpened s :=
  Members.exists_of_append (fun ho => hpc ho.2) h

theorem wasOpened_of_setPc (hpc : ¬ (pc = .initialized ∨ pc = .returned))
    (h : WasOpened (s.setPc i c pc)) : WasOpened s :=
  Members.exists_of_set (fun ho => hpc ho.2) h

theorem wasOpened_of_returned (ht : s.tasks[i]? = some task) (hr : s.Returns task)
    (h : WasOpened (s.setPc i task.call .returned)) : WasOpened s := by
  obtain ⟨task', hm, hc, hp⟩ := h
  rcases List.mem_or_eq_of_mem_set hm with hm | rfl
  · exact ⟨task', hm, hc, hp⟩
  · -- only the end of `initialize()` returns from that call
    unfold State.Returns at hr
    split at hr
    · cases hc
    · exact ⟨_, List.mem_of_getElem? ht, rfl, Or.inl rfl⟩
    · cases hc
    · cases hr

theorem wasOpened_of_closeCallback {exc : Option Raised}
    (h : WasOpened (s.closeCallback u exc)) : WasOpened s := by
  rcases closeCallback_cases s u exc with he | he
  · rw [he] at h
    exact h
  · rw [he] at h
    exact wasOpened_of_start (s := { s with restored := false }) (by simp) h

theorem closed_step (h : s.closed = false) (ha : a ≠ .call .close) (hs : step s a = some t) :
    t.closed = false := by
  cases step_cases hs with
  | restore | reopen | initialization | skipped | locked | connected | created | returned | failed
  | closed | callbackEnded => exact h
  | opened => rfl
  | restored | raised | cleaned =>
    rw [unlock_closed]
    exact h
  | close | unopened => exact absurd rfl ha
  | callbackStarted =>
    rw [closeCallback_closed]
    exact h

theorem rescued_closeCallback {exc : Option Raised}
    (h : s.restored = true ∨ Rescued s.tasks ∨ P) (hclosed : s.closed = false)
    (hcancel : exc = some .cancelled → Rescued s.tasks ∨ P) :
    Rescued (s.closeCallback u exc).tasks ∨ P := by
  unfold State.closeCallback
  simp only
  split
  · rename_i he
    exact hcancel he
  · split
    · rename_i hc
      rcases hc with hc | hc
      · cases hclosed.symm.trans hc
      · rcases h with h | h
        · cases hc.symm.trans h
        · exact h
    · exact Or.inl ⟨_, List.mem_append_right _ List.mem_cons_self, trivial, id⟩

/-- If the flag is clear, some close callback is restoring the channel unless `P`: a step keeps
this, provided that `P` holds when the last rescue gives up. -/
theorem rescued_step (h : WasOpened s → s.restored = true ∨ Rescued s.tasks ∨ P)
    (hclosed : s.closed = false) (ha : a ≠ .call .close)
    (hraise : WasOpened s → ∀ i c exc, raises s a = some (i, c, exc) → c.IsRescue →
      s.restored = true ∨ Rescued (s.tasks.eraseIdx i) ∨ P)
    (hcancel : WasOpened s → ∀ u, a = .callbackStarted u →
      s.callback u = some (.scheduled (some .cancelled)) → Rescued s.tasks ∨ P)
    (hs : step s a = some t) (ho : WasOpened t) :
    t.restored = true ∨ Rescued t.tasks ∨ P := by
  -- a task that goes on, or ends without being a rescue, changes nothing
  have hset : ∀ {s : State} {i : ℕ} {c : Call} {pc pc' : Pc},
      s.tasks[i]? = some ⟨c, pc'⟩ → (c.IsRescue → ¬ pc.Done) →
      s.restored = true ∨ Rescued s.tasks ∨ P →
      (s.setPc i c pc).restored = true ∨ Rescued (s.setPc i c pc).tasks ∨ P :=
    fun ht hc h => h.imp_right (Or.imp_left fun hr => hr.setPc ht hc)
  have hend : ∀ {i : ℕ} {c : Call} {pc : Pc} {exc : Raised}, s.tasks[i]? = some ⟨c, pc⟩ →
      raises s a = some (i, c, exc) → WasOpened s →
      s.restored = true ∨ Rescued (s.setPc i c (.raised exc)).tasks ∨ P := by
    intro i c pc exc ht hr ho
    by_cases hc : c.IsRescue
    · exact (hraise ho i c exc hr hc).imp_right (Or.imp_left rescued_set_of_erase)
    · exact hset ht (fun hc' => absurd hc' hc) (h ho)
  cases step_cases hs with
  | restore | reopen | initialization =>
    exact (h (wasOpened_of_start (by simp) ho)).imp_right (Or.imp_left Rescued.start)
  | close | unopened => exact absurd rfl ha
  | skipped ht hr => exact Or.inl hr
  | locked ht => exact hset ht (fun _ => id) (h (wasOpened_of_setPc (by simp) ho))
  | connected ht => exact hset ht (fun _ => id) (h (wasOpened_of_setPc (by simp) ho))
  | created ht => exact hset ht (fun _ => id) (h (wasOpened_of_setPc (by simp) ho))
  | failed ht => exact hset ht (fun _ => id) (h (wasOpened_of_setPc (by simp) ho))
  | opened => exact Or.inl rfl
  | restored =>
    rw [unlock_restored]
    exact Or.inl rfl
  | returned ht hr =>
    refine hset ht (fun hc => ?_) (h (wasOpened_of_returned ht hr ho))
    unfold Call.IsRescue at hc
    split at hc
    · rename_i hcall
      exact absurd hcall (not_restore_of_returns hr)
    · exact hc.elim
  | raised ht hr =>
    rw [WasOpened, unlock_tasks] at ho
    rw [unlock_restored, unlock_tasks]
    exact hend ht (raises_of_raises ht hr) (wasOpened_of_setPc (by simp) ho)
  | cleaned ht =>
    rw [WasOpened, unlock_tasks] at ho
    rw [unlock_restored, unlock_tasks]
    exact hend ht (by simp only [raises, ht]) (wasOpened_of_setPc (by simp) ho)
  | closed | callbackEnded => exact h ho
  | callbackStarted hi =>
    have ho : WasOpened s := wasOpened_of_closeCallback (s := s.setCallback _ _) ho
    refine Or.inr (rescued_closeCallback (s := s.setCallback _ _) (h ho) hclosed ?_)
    rintro rfl
    exact hcancel ho _ rfl hi

theorem task_setPc_call {j : ℕ} (pc : Pc) (hi : s.tasks[i]? = some task)
    (ht : s.tasks[j]? = some ⟨c, pc'⟩) :
    ∃ pc₁, (s.setPc j c pc).tasks[i]? = some ⟨task.call, pc₁⟩ ∧
      (pc₁ = task.pc ∨ j = i ∧ pc₁ = pc ∧ task = ⟨c, pc'⟩) := by
  have hlt : i < s.tasks.length := (List.getElem?_eq_some_iff.mp hi).1
  by_cases hj : j = i
  · subst hj
    obtain rfl : task = ⟨c, pc'⟩ := Option.some.inj (hi.symm.trans ht)
    exact ⟨pc, List.getElem?_set_self hlt, Or.inr ⟨rfl, rfl, rfl⟩⟩
  · exact ⟨task.pc, (List.getElem?_set_ne hj).trans hi, Or.inl rfl⟩

theorem task_start_call (hi : s.tasks[i]? = some task) :
    (s.start c pc).tasks[i]? = some task := by
  have hlt : i < s.tasks.length := (List.getElem?_eq_some_iff.mp hi).1
  exact (List.getElem?_append_left hlt).trans hi

/-- A coroutine keeps its call. If it has just returned from a restore, the flag is set; if it
has just raised, the action says so. -/
theorem task_step (hs : step s a = some t) (hi : s.tasks[i]? = some task) :
    ∃ pc, t.tasks[i]? = some ⟨task.call, pc⟩ ∧ (pc = task.pc ∨
      (pc = .returned → (∃ caller, task.call = .restore caller) → t.restored = true) ∧
      ∀ exc, pc = .raised exc → raises s a = some (i, task.call, exc)) := by
  -- it is enough to look at the coroutine that goes on
  have hset : ∀ {j : ℕ} {c : Call} {pc pc' : Pc}, s.tasks[j]? = some ⟨c, pc'⟩ →
      (j = i → task = ⟨c, pc'⟩ →
        (pc = .returned → (∃ caller, c = .restore caller) → t.restored = true) ∧
        ∀ exc, pc = .raised exc → raises s a = some (i, c, exc)) →
      ∃ pc₁, (s.tasks.set j ⟨c, pc⟩)[i]? = some ⟨task.call, pc₁⟩ ∧ (pc₁ = task.pc ∨
        (pc₁ = .returned → (∃ caller, task.call = .restore caller) → t.restored = true) ∧
        ∀ exc, pc₁ = .raised exc → raises s a = some (i, task.call, exc)) := by
    intro j c pc pc' ht hnew
    obtain ⟨pc₁, hget, he | ⟨rfl, rfl, rfl⟩⟩ := task_setPc_call pc hi ht
    · exact ⟨pc₁, hget, Or.inl he⟩
    · exact ⟨pc₁, hget, Or.inr (hnew rfl rfl)⟩
  cases step_cases hs with
  | restore | reopen | initialization | close | unopened =>
    exact ⟨_, task_start_call hi, Or.inl rfl⟩
  | skipped ht hr => exact hset ht fun _ _ => ⟨fun _ _ => hr, by simp⟩
  | locked ht | connected ht | created ht | failed ht => exact hset ht fun _ _ => ⟨by simp, by simp⟩
  | opened ht =>
    refine hset ht fun _ _ => ⟨fun _ _ => rfl, fun exc he => ?_⟩
    split at he <;> cases he
  | restored ht =>
    rw [unlock_tasks]
    refine hset ht fun _ _ => ⟨fun _ _ => ?_, fun _ he => by cases he⟩
    rw [unlock_restored]
    rfl
  | returned ht hr =>
    refine hset ht fun _ _ => ⟨?_, by simp⟩
    rintro - ⟨caller, hc⟩
    exact absurd hc (not_restore_of_returns hr)
  | raised ht hr =>
    rw [unlock_tasks]
    refine hset ht fun hj _ => ⟨by simp, fun exc he => ?_⟩
    obtain rfl := Pc.raised.inj he
    rw [← hj]
    exact raises_of_raises ht hr
  | cleaned ht =>
    rw [unlock_tasks]
    refine hset ht fun hj _ => ⟨by simp, fun exc he => ?_⟩
    obtain rfl := Pc.raised.inj he
    rw [← hj]
    simp only [raises, ht]
  | closed | callbackEnded => exact ⟨_, hi, Or.inl rfl⟩
  | @callbackStarted u exc =>
    refine ⟨task.pc, ?_, Or.inl rfl⟩
    rcases closeCallback_cases (s.setCallback u .running) u exc with he | he
    · rw [he]
      exact hi
    · rw [he]
      exact task_start_call hi

end AioPika.Lifecycle
