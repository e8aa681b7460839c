import AioPika.Pool.Safety

/-! # Waiting for an item

A task decides from the limit and the idle queue whether it waits for an item or
makes one, and an item that was idle may be gone when it is woken. It waits only
if the limit was reached, and the count never falls.
-/

namespace AioPika.Pool

open Transition

variable {T : Type*} {maxSize : Option ℕ} {s t : State T} {i : ℕ} {pc pc' : Pc T} {x : T}

/-- The task is in `self.__items.get()`. -/
def Pc.Gets : Pc T → Prop
  | .getting _ => True
  | _ => False

/-- Whoever waits for an item has found the limit reached. -/
def Exhausted (maxSize : Option ℕ) (s : State T) : Prop :=
  ∀ pc ∈ s.tasks, pc.Gets → ∃ n, maxSize = some n ∧ n ≤ s.created

theorem limit_reached (ho : s.isOverflow maxSize = true) (hx : s.items = []) :
    ∃ n, maxSize = some n ∧ n ≤ s.created := by
  have hr : s.hasReleased = false := by simp [State.hasReleased, hx]
  unfold State.isOverflow at ho
  split at ho
  · rename_i hm
    obtain ⟨n, rfl⟩ : ∃ n, maxSize = some n := by
      cases maxSize with
      | none => exact absurd rfl hm
      | some n => exact ⟨n, rfl⟩
    rw [hr, Bool.or_false, decide_eq_true_eq] at ho
    exact ⟨n, rfl, ho⟩
  · rw [hr] at ho
    cases ho

theorem createItem_gets (h : (s.createItem maxSize i).2.Gets) :
    s.isOverflow maxSize = true ∧ s.items = [] := by
  unfold State.createItem at h
  split at h
  · rename_i ho
    split at h
    · rename_i hx
      exact ⟨ho, hx⟩
    · exact h.elim
  · exact h.elim

theorem get_gets (h : (s.get maxSize i).2.Gets) : s.isOverflow maxSize = true ∧ s.items = [] := by
  unfold State.get at h
  split at h
  · rename_i ho
    split at h
    · rename_i hx
      exact ⟨ho, hx⟩
    · exact h.elim
  · split at h
    · exact createItem_gets h
    · exact h.elim

theorem exit_gets (h : pc ∈ (s.exit i x pc').tasks) (hp : ¬ pc'.Gets) (hg : pc.Gets) :
    pc ∈ s.tasks := by
  have hset : ∃ q, (s.exit i x pc').tasks = s.tasks.set i q ∧ ¬ q.Gets := by
    cases hc : s.closed with
    | false => exact ⟨pc', by rw [exit_open hc]; rfl, hp⟩
    | true => exact ⟨.raised, by rw [exit_closed hc]; rfl, id⟩
  obtain ⟨q, hq, hn⟩ := hset
  rw [hq] at h
  rcases List.mem_or_eq_of_mem_set h with h | rfl
  · exact h
  · exact absurd hg hn

variable [DecidableEq T] {a : Action T} {as : List (Action T)}

/-- Who begins to wait has found an overflow, and no idle item. -/
theorem gets_step (hs : step maxSize s a = some t) (hp : pc ∈ t.tasks) (hg : pc.Gets) :
    pc ∈ s.tasks ∨ s.isOverflow maxSize = true ∧ s.items = [] := by
  have hset {i : ℕ} {q : Pc T} (hm : pc ∈ s.tasks.set i q) (hq : ¬ q.Gets) : pc ∈ s.tasks := by
    rcases List.mem_or_eq_of_mem_set hm with hm | rfl
    · exact hm
    · exact absurd hg hq
  have hclose (i : ℕ) : ¬ (s.closeItems i).2.Gets ∧ (s.closeItems i).1.tasks = s.tasks := by
    rcases closeItems_cases s i with ⟨-, he⟩ | he <;> rw [he] <;> exact ⟨id, rfl⟩
  cases step_cases hs with
  | acquire =>
    rw [State.start_tasks, get_grants.tasks] at hp
    rcases List.mem_append.mp hp with hp | hp
    · exact Or.inl hp
    · rw [List.mem_singleton.mp hp] at hg
      exact Or.inr (get_gets hg)
  | locked ht hl =>
    rw [State.setPc_tasks, (createItem_grants hl).tasks] at hp
    rcases List.mem_or_eq_of_mem_set hp with hp | rfl
    · exact Or.inl hp
    · exact Or.inr (createItem_gets hg)
  | @closeLocked i =>
    rw [State.setPc_tasks, (hclose i).2] at hp
    exact Or.inl (hset hp (hclose i).1)
  | constructed => exact Or.inl (hset hp id)
  | failed => exact Or.inl (hset hp id)
  | got => exact Or.inl (hset hp id)
  | released => exact Or.inl (exit_gets hp id hg)
  | cancelledWaiting => exact Or.inl (hset hp id)
  | cancelledLocked => exact Or.inl (hset hp id)
  | cancelledBorrowing => exact Or.inl (exit_gets hp id hg)
  | close =>
    rw [State.start_tasks, (hclose _).2] at hp
    rcases List.mem_append.mp hp with hp | hp
    · exact Or.inl hp
    · rw [List.mem_singleton.mp hp] at hg
      exact absurd hg (hclose _).1
  | closeWaits =>
    rcases List.mem_append.mp hp with hp | hp
    · exact Or.inl hp
    · rw [List.mem_singleton.mp hp] at hg
      exact hg.elim
  | itemClosed => exact Or.inl (hset hp id)
  | closeReturned => exact Or.inl (hset hp id)

theorem created_mono (hs : step maxSize s a = some t) : s.created ≤ t.created := by
  rcases made_step hs with ⟨-, -, -, hc, -⟩ | ⟨-, hc, -⟩ <;> omega

theorem exhausted_step (h : Exhausted maxSize s) (hs : step maxSize s a = some t) :
    Exhausted maxSize t := by
  intro pc hp hg
  have hlimit : ∃ n, maxSize = some n ∧ n ≤ s.created := by
    rcases gets_step hs hp hg with hp | ⟨ho, hx⟩
    · exact h pc hp hg
    · exact limit_reached ho hx
  obtain ⟨n, hn, hle⟩ := hlimit
  exact ⟨n, hn, Nat.le_trans hle (created_mono hs)⟩

theorem count_borrowing {ts : List (Pc T)} :
    Custody.count Pc.holds ts x = ts.count (.borrowing x) := by
  induction ts with
  | nil => rfl
  | cons pc ts ih =>
    rw [Custody.count_cons, List.count_cons, ih, Nat.add_comm]
    congr 1
    cases pc <;> simp [Pc.holds, List.count_cons]

/-- A task waits for an item only if the pool has a limit and has made as many items as it allows;
without an idle item all of them are borrowed. -/
theorem waits_when_exhausted (hmax : ∀ n, maxSize = some n → 1 ≤ n)
    (hr : Run (step maxSize) (fun _ a => a.Open) fresh as s) :
    (maxSize = none → ∀ pc ∈ s.tasks, ¬ pc.Gets) ∧
    ∀ pc ∈ s.tasks, pc.Gets → ∃ n, maxSize = some n ∧ s.created = n ∧
      as.countP Action.Constructs = n ∧
      (s.items = [] → ∀ x, s.tasks.count (.borrowing x) = as.countP (Action.Builds x)) := by
  have hlimited : Limited maxSize s :=
    hr.invariant (fun _ _ _ h ho hs => limited_step h ho hs) fresh_limited
  have hexhausted : Exhausted maxSize s :=
    hr.invariant (fun _ _ _ h _ hs => exhausted_step h hs) (by rintro pc ⟨⟩)
  constructor
  · rintro rfl pc hp hg
    obtain ⟨n, hn, -⟩ := hexhausted pc hp hg
    cases hn
  · intro pc hp hg
    obtain ⟨n, hn, hle⟩ := hexhausted pc hp hg
    have hcreated : s.created = n :=
      Nat.le_antisymm (hlimited.bounded n hn (hmax n hn)).1 hle
    have hmade : s.created = 0 + as.countP Action.Constructs := (run_made hr).1
    refine ⟨n, hn, hcreated, by omega, fun hx x => ?_⟩
    have hheld : s.held x = 0 + as.countP (Action.Builds x) :=
      hr.count_of (State.held · x) (Action.Builds x)
        (fun _ _ _ h ho hs => limited_step h ho hs)
        (fun _ _ _ h ho hs => held_step h ho hs x) fresh_limited
    rw [State.held, hx, List.count_nil, count_borrowing] at hheld
    omega

def waitingRun : List (Action ℕ) := [.acquire, .constructed 0 7, .acquire]

theorem second_waits : ∃ s, Run (step (some 1)) (fun _ a => a.Open) fresh waitingRun s ∧
    .getting false ∈ s.tasks ∧ s.created = 1 ∧ s.tasks.count (.borrowing 7) = 1 := by
  have hr : Run (step (some 1)) (fun _ a => a.Open) fresh waitingRun
      ⟨false, 1, [7], [], none, [.borrowing 7, .getting false], []⟩ := run_of_checked rfl
  have hmax (n : ℕ) (hn : some 1 = some n) : 1 ≤ n := (Option.some.inj hn).symm ▸ Nat.le_refl 1
  obtain ⟨n, hn, hcreated, -, hheld⟩ :=
    (waits_when_exhausted hmax hr).2 (.getting false) (by decide) trivial
  obtain rfl := Option.some.inj hn
  exact ⟨_, hr, by decide, hcreated, hheld rfl 7⟩

end AioPika.Pool
