import AioPika.Pool.Safety

/-! # Closing a pool

`close()` marks the pool as closed and closes all items under the lock, and no
task enters the pool any more. A task that has seen the pool open and waits for
the lock looks at the idle items and the limit only: it makes another item when
these let it.
-/

namespace AioPika.Pool

open Transition

variable {T : Type*} {maxSize : Option ℕ} {s t : State T} {i : ℕ} {pc pc' : Pc T} {x : T}

/-- A call of `close()` has returned. -/
def HasClosed (s : State T) : Prop := .closed ∈ s.tasks

/-- Once `close()` has returned, all items ever made are closed, and none is being made. -/
def Sealed (s : State T) : Prop :=
  HasClosed s → (∀ x ∈ s.itemSet, x ∈ s.closedItems) ∧ .constructing ∉ s.tasks

/-- Who gets the lock after `close()` has returned finds an idle item, or the limit reached. -/
def Turned (maxSize : Option ℕ) (s : State T) : Action T → Prop
  | .locked i =>
    s.tasks[i]? = some .locking → HasClosed s → s.isOverflow maxSize = true
  | _ => True

/-- The task is in `close()`, with the lock or after it. -/
def Pc.Seals : Pc T → Prop
  | .closing _ | .closed => True
  | _ => False

structure Closing (s : State T) : Prop where
  exclusive : Exclusive s
  closed : ∀ pc ∈ s.tasks, pc.Seals → s.closed = true
  pending : ∀ items, .closing items ∈ s.tasks → ∀ x ∈ s.itemSet, x ∈ items ∨ x ∈ s.closedItems

theorem fresh_closing : Closing (fresh : State T) := by
  constructor
  · exact fresh_exclusive
  · rintro pc hm
    cases hm
  · rintro items hm
    cases hm

theorem Closing.move (h : Closing s) (he : Exclusive t) (htasks : t.tasks = s.tasks.set i pc')
    (hset : t.itemSet = s.itemSet) (hclosed : s.closed = true → t.closed = true)
    (hitems : ∀ x ∈ s.closedItems, x ∈ t.closedItems) (hseals : pc'.Seals → t.closed = true)
    (hpc : ∀ items, pc' = .closing items → ∀ x ∈ s.itemSet, x ∈ items ∨ x ∈ t.closedItems) :
    Closing t := by
  constructor
  · exact he
  · intro q hq hs
    rw [htasks] at hq
    rcases List.mem_or_eq_of_mem_set hq with hq | rfl
    · exact hclosed (h.closed q hq hs)
    · exact hseals hs
  · intro items hq x hx
    rw [htasks] at hq
    rw [hset] at hx
    rcases List.mem_or_eq_of_mem_set hq with hq | hq
    · exact (h.pending items hq x hx).imp_right (hitems x)
    · exact hpc items hq.symm x hx

theorem Closing.start (h : Closing s) (hp : ¬ pc.Locks) (hs : ¬ pc.Seals) :
    Closing (s.start pc) := by
  constructor
  · exact h.exclusive.start hp
  · intro q hq hseals
    rcases List.mem_append.mp hq with hq | hq
    · exact h.closed q hq hseals
    · obtain rfl := List.mem_singleton.mp hq
      exact absurd hseals hs
  · intro items hq x hx
    rcases List.mem_append.mp hq with hq | hq
    · exact h.pending items hq x hx
    · obtain rfl := List.mem_singleton.mp hq
      exact absurd trivial hs

theorem Pc.Seals.closes (h : pc.Seals) : pc.Closes := by
  cases pc with
  | closing => trivial
  | closed => trivial
  | _ => exact h.elim

theorem Closing.keep (h : Closing s) (he : Exclusive t) (htasks : t.tasks = s.tasks.set i pc')
    (hk : Keeps s t pc') : Closing t := by
  refine h.move he htasks hk.itemSet (fun hc => ?_) (fun x hx => ?_) ?_ ?_
  · rw [hk.closed, hc]
  · rw [hk.closedItems]
    exact hx
  · exact fun hs => absurd hs.closes hk.unclosing
  · rintro items rfl
    exact absurd trivial hk.unclosing

theorem closeItems_start :
    (s.closeItems s.tasks.length).1.start (s.closeItems s.tasks.length).2 =
      ((s.start .raised).closeItems s.tasks.length).1.setPc s.tasks.length
        ((s.start .raised).closeItems s.tasks.length).2 := by
  unfold State.closeItems
  cases h : s.itemSet <;> simp [State.start, State.setPc, h]

theorem Closing.closeItems (h : Closing s) (hl : s.lock = none) :
    Closing ((s.closeItems i).1.setPc i (s.closeItems i).2) := by
  have he := h.exclusive.grant (closeItems_grants (i := i) hl)
  rcases closeItems_cases s i with ⟨-, hc⟩ | hc
  · rw [hc] at he ⊢
    exact h.move he rfl rfl (fun _ => rfl) (fun _ hx => hx) (fun _ => rfl) nofun
  · rw [hc] at he ⊢
    refine h.move he rfl rfl (fun _ => rfl) (fun _ hx => hx) (fun _ => rfl) ?_
    rintro items hpc x hx
    obtain rfl := Pc.closing.inj hpc
    exact Or.inl hx

theorem Closing.exit (h : Closing s) (hl : ¬ pc.Locks) (hp : ¬ pc.Closes) :
    Closing (s.exit i x pc) := by
  obtain ⟨pc', htasks, -, hk⟩ := exit_keeps (s := s) (i := i) (x := x) hp
  exact h.keep (exit_exclusive h.exclusive hl) htasks hk

theorem closing_step [DecidableEq T] {a : Action T} (h : Closing s)
    (hs : step maxSize s a = some t) : Closing t := by
  have he : Exclusive t := exclusive_step h.exclusive hs
  cases step_cases hs with
  | acquire =>
    have hstart : Closing (s.start .raised) := h.start id id
    refine hstart.keep (i := s.tasks.length) he ?_ get_keeps.start
    rw [State.start_tasks, get_grants.tasks]
    simp
  | @locked i ht hl =>
    refine h.keep (i := i) he ?_ createItem_keeps.setPc
    rw [State.setPc_tasks, (createItem_grants hl).tasks]
  | closeLocked ht hl => exact h.closeItems hl
  | @constructed i x ht =>
    -- the lock is with the constructor, and nobody is closing the items
    have hclosing (items : List T) : .closing items ∉ s.tasks := by
      intro hm
      obtain ⟨j, hj⟩ := List.getElem?_of_mem hm
      have hjl := h.exclusive j _ hj trivial
      rw [h.exclusive i _ ht trivial] at hjl
      obtain rfl := Option.some.inj hjl
      rw [ht] at hj
      cases hj
    constructor
    · exact he
    · intro q hq hs
      rcases List.mem_or_eq_of_mem_set hq with hq | rfl
      · exact h.closed q hq hs
      · exact hs.elim
    · intro items hq
      rcases List.mem_or_eq_of_mem_set hq with hq | hq
      · exact absurd hq (hclosing items)
      · cases hq
  | failed => exact h.keep he rfl ⟨rfl, rfl, rfl, rfl, id⟩
  | got => exact h.keep he rfl ⟨rfl, rfl, rfl, rfl, id⟩
  | released => exact h.exit id id
  | cancelledWaiting => exact h.keep he rfl ⟨rfl, rfl, rfl, rfl, id⟩
  | cancelledLocked => exact h.keep he rfl ⟨rfl, rfl, rfl, rfl, id⟩
  | cancelledBorrowing => exact h.exit id id
  | close hu =>
    have hstart : Closing (s.start .raised) := h.start id id
    rw [closeItems_start]
    exact hstart.closeItems hu.1
  | closeWaits => exact h.start id id
  | @itemClosed i x items ht hx =>
    have hm := List.mem_of_getElem? ht
    refine h.move he rfl rfl id (fun y hy => List.mem_append_left _ hy)
      (fun _ => h.closed _ hm trivial) ?_
    rintro rest hpc y hy
    obtain rfl := Pc.closing.inj hpc
    rcases h.pending items hm y hy with hy | hy
    · by_cases hyx : y = x
      · exact Or.inr (List.mem_append_right _ (List.mem_singleton.mpr hyx))
      · exact Or.inl ((List.mem_erase_of_ne hyx).mpr hy)
    · exact Or.inr (List.mem_append_left _ hy)
  | closeReturned ht =>
    have hm := List.mem_of_getElem? ht
    exact h.move he rfl rfl id (fun _ hy => hy) (fun _ => h.closed _ hm trivial) nofun

theorem Keeps.not_closed (h : Keeps s t pc') : pc' ≠ .closed := by
  rintro rfl
  exact h.unclosing trivial

theorem Sealed.move (h : Sealed s) (htasks : ∀ pc ∈ t.tasks, pc ∈ s.tasks ∨ pc = pc')
    (hset : t.itemSet = s.itemSet) (hitems : ∀ x ∈ s.closedItems, x ∈ t.closedItems)
    (hclosed : pc' ≠ .closed) (hcon : HasClosed s → pc' ≠ .constructing) : Sealed t := by
  intro hc
  have hcs : HasClosed s := (htasks _ hc).resolve_right hclosed.symm
  obtain ⟨hall, hnone⟩ := h hcs
  constructor
  · intro x hx
    rw [hset] at hx
    exact hitems x (hall x hx)
  · intro hm
    rcases htasks _ hm with hm | hm
    · exact hnone hm
    · exact hcon hcs hm.symm

theorem Sealed.set (h : Sealed s) (htasks : t.tasks = s.tasks.set i pc')
    (hset : t.itemSet = s.itemSet) (hitems : ∀ x ∈ s.closedItems, x ∈ t.closedItems)
    (hclosed : pc' ≠ .closed) (hcon : HasClosed s → pc' ≠ .constructing) : Sealed t := by
  refine h.move (fun q hq => ?_) hset hitems hclosed hcon
  rw [htasks] at hq
  exact List.mem_or_eq_of_mem_set hq

theorem Sealed.pass (h : Sealed s) (htasks : t.tasks = s.tasks.set i pc')
    (hset : t.itemSet = s.itemSet) (hitems : t.closedItems = s.closedItems)
    (hclosed : pc' ≠ .closed) (hcon : pc' ≠ .constructing) : Sealed t := by
  refine h.set htasks hset (fun x hx => ?_) hclosed fun _ => hcon
  rw [hitems]
  exact hx

theorem Sealed.start (h : Sealed s) (htasks : t.tasks = s.tasks ++ [pc'])
    (hset : t.itemSet = s.itemSet) (hitems : ∀ x ∈ s.closedItems, x ∈ t.closedItems)
    (hclosed : pc' ≠ .closed) (hcon : HasClosed s → pc' ≠ .constructing) : Sealed t := by
  refine h.move (fun q hq => ?_) hset hitems hclosed hcon
  rw [htasks] at hq
  exact (List.mem_append.mp hq).imp_right List.mem_singleton.mp

theorem Sealed.exit (h : Sealed s) (hp : pc = .released ∨ pc = .raised) :
    Sealed (s.exit i x pc) := by
  have hn : ¬ pc.Closes := by rcases hp with rfl | rfl <;> exact id
  obtain ⟨pc', htasks, hpc, hk⟩ := exit_keeps (s := s) (i := i) (x := x) hn
  refine h.set htasks hk.itemSet (fun y hy => hk.closedItems ▸ hy) ?_ ?_
  · rcases hpc with rfl | rfl
    · rcases hp with rfl | rfl <;> nofun
    · nofun
  · rcases hpc with rfl | rfl
    · rcases hp with rfl | rfl <;> nofun
    · nofun

theorem Exclusive.unconstructing (h : Exclusive s) (hl : s.lock = none) :
    .constructing ∉ s.tasks := by
  intro hm
  obtain ⟨j, hj⟩ := List.getElem?_of_mem hm
  have hlock := h j _ hj trivial
  rw [hl] at hlock
  cases hlock

theorem HasClosed.set (h : HasClosed s) (ht : s.tasks[i]? = some pc) (hp : pc ≠ .closed)
    (htasks : t.tasks = s.tasks.set i pc') : HasClosed t := by
  obtain ⟨j, hj⟩ := List.getElem?_of_mem h
  have hne : i ≠ j := by
    rintro rfl
    rw [ht] at hj
    exact hp (Option.some.inj hj)
  unfold HasClosed
  rw [htasks]
  exact List.mem_of_getElem? ((List.getElem?_set_ne hne).trans hj)

theorem Sealed.closeItems (h : Sealed s) (hc : Closing s) (hl : s.lock = none) :
    Sealed ((s.closeItems i).1.setPc i (s.closeItems i).2) := by
  rcases closeItems_cases s i with ⟨hempty, he⟩ | he
  · rw [he]
    intro _
    constructor
    · intro x hx
      have hx : x ∈ s.itemSet := hx
      rw [hempty] at hx
      cases hx
    · intro hm
      rcases List.mem_or_eq_of_mem_set hm with hm | hm
      · exact hc.exclusive.unconstructing hl hm
      · cases hm
  · rw [he]
    exact h.pass rfl rfl rfl nofun nofun

theorem Sealed.closeReturned (hc : Closing s) (ht : s.tasks[i]? = some (.closing []))
    (hset : t.itemSet = s.itemSet) (hitems : t.closedItems = s.closedItems) (he : Exclusive t)
    (hl : t.lock = none) : Sealed t := by
  intro _
  constructor
  · intro x hx
    rw [hset] at hx
    rw [hitems]
    exact (hc.pending [] (List.mem_of_getElem? ht) x hx).resolve_left (by simp)
  · exact he.unconstructing hl

variable [DecidableEq T] {a : Action T}

/-- The lock after `close()` decides. -/
theorem sealed_step_iff (hc : Closing s) (h : Sealed s) (hs : step maxSize s a = some t) :
    Sealed t ↔ Turned maxSize s a := by
  have he : Exclusive t := exclusive_step hc.exclusive hs
  cases step_cases hs with
  | acquire hopen =>
    have hn : ¬ HasClosed s := by
      intro hm
      have hclosed := hc.closed _ hm trivial
      rw [hopen] at hclosed
      cases hclosed
    have hk : Keeps s (s.get maxSize s.tasks.length).1 (s.get maxSize s.tasks.length).2 := get_keeps
    refine iff_of_true ?_ trivial
    refine h.start (by rw [State.start_tasks, get_grants.tasks]) hk.itemSet (fun x hx => ?_)
      hk.not_closed fun hm => absurd hm hn
    rw [State.start_closedItems, hk.closedItems]
    exact hx
  | @locked i ht hl =>
    have htasks : ((s.createItem maxSize i).1.setPc i (s.createItem maxSize i).2).tasks =
        s.tasks.set i (s.createItem maxSize i).2 := by
      rw [State.setPc_tasks, (createItem_grants hl).tasks]
    constructor
    · intro hsealed _ hclosed
      by_contra ho
      have hct := hclosed.set ht (by rintro ⟨⟩) htasks
      apply (hsealed hct).2
      rw [htasks, State.createItem, if_neg ho]
      exact List.mem_of_getElem? (List.getElem?_set_self (List.getElem?_eq_some_iff.mp ht).1)
    · intro hturned
      have hk : Keeps s (s.createItem maxSize i).1 (s.createItem maxSize i).2 := createItem_keeps
      refine h.set htasks hk.itemSet (fun x hx => ?_) hk.not_closed ?_
      · rw [State.setPc_closedItems, hk.closedItems]
        exact hx
      · intro hclosed hp
        have hm : Moves maxSize s .locking (s.createItem maxSize i).1 _ := createItem_moves rfl
        exact hm.room hp (hturned ht hclosed)
  | @closeLocked i ht hl =>
    refine iff_of_true (h.closeItems hc hl) fun hlocking => ?_
    rw [ht] at hlocking
    cases hlocking
  | @constructed i x ht =>
    refine iff_of_true (fun hct => ?_) trivial
    have hcs : HasClosed s := by
      rcases List.mem_or_eq_of_mem_set hct with hm | hm
      · exact hm
      · cases hm
    exact absurd (List.mem_of_getElem? ht) (h hcs).2
  | failed => exact iff_of_true (h.pass rfl rfl rfl (by rintro ⟨⟩) (by rintro ⟨⟩)) trivial
  | got => exact iff_of_true (h.pass rfl rfl rfl (by rintro ⟨⟩) (by rintro ⟨⟩)) trivial
  | released => exact iff_of_true (h.exit (Or.inl rfl)) trivial
  | cancelledWaiting =>
    exact iff_of_true (h.pass rfl rfl rfl (by rintro ⟨⟩) (by rintro ⟨⟩)) trivial
  | cancelledLocked =>
    exact iff_of_true (h.pass rfl rfl rfl (by rintro ⟨⟩) (by rintro ⟨⟩)) trivial
  | cancelledBorrowing => exact iff_of_true (h.exit (Or.inr rfl)) trivial
  | close hu =>
    rw [closeItems_start] at he ⊢
    have hstart : Closing (s.start .raised) := hc.start id id
    have hsealed : Sealed (s.start .raised) :=
      h.start rfl rfl (fun _ hx => hx) (by rintro ⟨⟩) fun _ => by rintro ⟨⟩
    exact iff_of_true (hsealed.closeItems hstart hu.1) trivial
  | closeWaits =>
    refine iff_of_true ?_ trivial
    exact h.start rfl rfl (fun _ hx => hx) (by rintro ⟨⟩) fun _ => by rintro ⟨⟩
  | itemClosed =>
    refine iff_of_true ?_ trivial
    refine h.set rfl rfl (fun y hy => ?_) (by rintro ⟨⟩) fun _ => by rintro ⟨⟩
    exact List.mem_append_left _ hy
  | closeReturned ht => exact iff_of_true (.closeReturned hc ht rfl rfl he rfl) trivial

/-- A pool stays sealed exactly as long as no task that waited for the lock makes an item after
`close()` has returned. -/
theorem sealed_iff {as : List (Action T)} :
    Throughout (step maxSize) Sealed fresh as ↔
      EachStep (step maxSize) (Turned maxSize) fresh as := by
  refine throughout_iff_eachStep (J := Closing) (fun _ _ _ hc _ hs _ => closing_step hc hs)
    (fun _ _ _ hc h hs => sealed_step_iff hc h hs) fresh_closing ?_
  rintro hm
  cases hm

/-- A task that has seen the pool open waits for the lock while the pool is closed, and makes
another item when `close()` has returned. -/
def lateAcquirer : List (Action ℕ) :=
  [.acquire, .close, .acquire, .constructed 0 7, .locked 1, .itemClosed 1 7, .closeReturned 1,
    .locked 2, .constructed 2 8]

/-- Nobody closes the item that was made last. -/
theorem made_after_close : ∃ s : State ℕ,
    Run (step none) (fun _ _ => True) fresh lateAcquirer s ∧ HasClosed s ∧ 8 ∈ s.itemSet ∧
    8 ∉ s.closedItems ∧ ¬ Sealed s := by
  refine ⟨_, run_of_checked rfl, ?_, ?_, ?_, ?_⟩
  · unfold HasClosed
    decide
  · decide
  · decide
  · intro h
    have hall := (h (by unfold HasClosed; decide)).1 8 (by decide)
    exact absurd hall (by decide)

end AioPika.Pool
