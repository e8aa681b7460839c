import AioPika.Foundation.Custody
import AioPika.Foundation.Runs
import Mathlib.Tactic.Simps.Basic

/-! # Pools

A `Pool` lends the items that its constructor makes to any number of tasks. An
action is what a task does between two awaits, and an acquisition is an `async
with pool.acquire()` block; a call that raises at once is no action. An
uncontended lock and an item that is there are taken without an await.
-/

namespace AioPika.Pool

variable {T : Type*}

inductive Pc (T : Type*) where
  /-- In `_create_item`: `async with self.__lock` -/
  | locking
  /-- `await self.__constructor(...)`, under the lock -/
  | constructing
  /-- `await self.__items.get()`, in `_create_item` under the lock, in `_get` without it -/
  | getting (locked : Bool)
  /-- In the body of the `async with` block -/
  | borrowing (item : T)
  /-- The block is over. -/
  | released
  | raised
  /-- In `close()`: `async with self.__lock` -/
  | closeLocking
  /-- `await asyncio.gather(*tasks)`, with the items whose `close` is still to be called. -/
  | closing (items : List T)
  /-- `close()` has returned. -/
  | closed
  deriving DecidableEq, Repr

namespace Pc

def holds : Pc T → List T
  | .borrowing x => [x]
  | _ => []

/-- The task is in a block `async with self.__lock`. -/
def Locks : Pc T → Prop
  | .constructing | .getting true | .closing _ => True
  | _ => False

def Waits : Pc T → Prop
  | .locking | .closeLocking => True
  | _ => False

instance : DecidablePred (Waits (T := T))
  | .locking | .closeLocking => .isTrue trivial
  | .constructing | .getting _ | .borrowing _ | .released | .raised | .closing _ | .closed =>
    .isFalse id

end Pc

structure State (T : Type*) where
  /-- `__closed` -/
  closed : Bool
  /-- `__created` -/
  created : ℕ
  /-- `__item_set` -/
  itemSet : List T
  /-- `__items` -/
  items : List T
  /-- The task that holds `__lock`. -/
  lock : Option ℕ
  tasks : List (Pc T)
  /-- The items whose `close` has been called. -/
  closedItems : List T
  deriving DecidableEq, Repr

inductive Action (T : Type*) where
  /-- A new task enters `_get`. -/
  | acquire
  /-- `__lock` is acquired; here any of the tasks that wait for it may be the next. -/
  | locked (task : ℕ)
  /-- The constructor returns. -/
  | constructed (task : ℕ) (item : T)
  /-- The constructor raises. -/
  | failed (task : ℕ)
  /-- The wait for an item is over. -/
  | got (task : ℕ)
  /-- The body of the `async with` block is over. -/
  | released (task : ℕ)
  /-- `CancelledError` is raised at the await of the task. -/
  | cancelled (task : ℕ)
  /-- A new task enters `close()`. -/
  | close
  /-- A task of `close()` calls `item.close`. -/
  | itemClosed (task : ℕ) (item : T)
  /-- `gather` has seen the end of all tasks. -/
  | closeReturned (task : ℕ)
  deriving DecidableEq, Repr

/-- `__init__` -/
def fresh : State T := ⟨false, 0, [], [], none, [], []⟩

namespace State

variable (maxSize : Option ℕ) (s : State T)

/-- `_has_released` -/
def hasReleased : Bool := decide (0 < s.items.length)

/-- `_is_overflow` -/
def isOverflow : Bool :=
  if maxSize.getD 0 ≠ 0 then decide (maxSize.getD 0 ≤ s.created) || s.hasReleased
  else s.hasReleased

@[simps]
def setPc (i : ℕ) (pc : Pc T) : State T := { s with tasks := s.tasks.set i pc }

@[simps]
def start (pc : Pc T) : State T := { s with tasks := s.tasks ++ [pc] }

/-- `async with self.__lock` does not suspend: the lock is free, and no task waits for it. -/
def Uncontended : Prop := s.lock = none ∧ ∀ pc ∈ s.tasks, ¬ pc.Waits

instance : Decidable s.Uncontended :=
  inferInstanceAs (Decidable (s.lock = none ∧ ∀ pc ∈ s.tasks, ¬ pc.Waits))

/-- `_create_item` of task `i`, from the acquired lock to its next await. -/
def createItem (i : ℕ) : State T × Pc T :=
  if s.isOverflow maxSize then
    match s.items with
    | [] => ({ s with lock := some i }, .getting true)
    | x :: items => ({ s with items := items }, .borrowing x)
  else ({ s with lock := some i }, .constructing)

/-- `_get` of task `i`, up to its first await. -/
def get (i : ℕ) : State T × Pc T :=
  if s.isOverflow maxSize then
    match s.items with
    | [] => (s, .getting false)
    | x :: items => ({ s with items := items }, .borrowing x)
  else if s.Uncontended then s.createItem maxSize i
  else (s, .locking)

/-- `put`, which raises `PoolInvalidStateError` on a closed pool. -/
def put (x : T) : Option (State T) :=
  if s.closed then none else some { s with items := s.items ++ [x] }

/-- `close()` of task `i`, from the acquired lock to its next await. -/
def closeItems (i : ℕ) : State T × Pc T :=
  match s.itemSet with
  | [] => ({ s with closed := true }, .closed)
  | items => ({ s with closed := true, lock := some i }, .closing items)

/-- The `__aexit__` of task `i`, whose block has ended as `pc` says. -/
def exit (i : ℕ) (x : T) (pc : Pc T) : State T :=
  match s.put x with
  | some t => t.setPc i pc
  | none => s.setPc i .raised

end State

section Operations

variable {maxSize : Option ℕ} {s : State T} {i : ℕ} {pc : Pc T} {x : T}

theorem created_lt (h : ¬ s.isOverflow maxSize = true) {n : ℕ} (hm : maxSize = some n)
    (hn : 0 < n) : s.created < n := by
  unfold State.isOverflow at h
  subst hm
  have hne : (some n).getD 0 ≠ 0 := by
    rw [Option.getD_some]
    omega
  rw [if_pos hne] at h
  simp only [Option.getD_some, Bool.or_eq_true, decide_eq_true_eq, not_or] at h
  omega

theorem createItem_cases (maxSize : Option ℕ) (s : State T) (i : ℕ) :
    (∃ x items, s.items = x :: items ∧
      s.createItem maxSize i = ({ s with items := items }, .borrowing x)) ∨
    (s.isOverflow maxSize = true ∧
      s.createItem maxSize i = ({ s with lock := some i }, .getting true)) ∨
    (¬ s.isOverflow maxSize = true ∧
      s.createItem maxSize i = ({ s with lock := some i }, .constructing)) := by
  unfold State.createItem
  split
  · rename_i ho
    split
    · exact Or.inr (Or.inl ⟨ho, rfl⟩)
    · rename_i x items hx
      exact Or.inl ⟨x, items, hx, rfl⟩
  · rename_i ho
    exact Or.inr (Or.inr ⟨ho, rfl⟩)

theorem get_cases (maxSize : Option ℕ) (s : State T) (i : ℕ) :
    (∃ x items, s.items = x :: items ∧
      s.get maxSize i = ({ s with items := items }, .borrowing x)) ∨
    (∃ pc, (pc = .getting false ∨ pc = .locking) ∧ s.get maxSize i = (s, pc)) ∨
    (s.lock = none ∧ ¬ s.isOverflow maxSize = true ∧
      s.get maxSize i = ({ s with lock := some i }, .constructing)) := by
  unfold State.get
  split
  · split
    · exact Or.inr (Or.inl ⟨_, Or.inl rfl, rfl⟩)
    · rename_i x items hx
      exact Or.inl ⟨x, items, hx, rfl⟩
  · rename_i ho
    split
    · rename_i hu
      right; right
      refine ⟨hu.1, ho, ?_⟩
      rw [State.createItem, if_neg ho]
    · exact Or.inr (Or.inl ⟨_, Or.inr rfl, rfl⟩)

theorem closeItems_cases (s : State T) (i : ℕ) :
    (s.itemSet = [] ∧ s.closeItems i = ({ s with closed := true }, .closed)) ∨
    (s.closeItems i = ({ s with closed := true, lock := some i }, .closing s.itemSet)) := by
  unfold State.closeItems
  split
  · rename_i h
    exact Or.inl ⟨h, rfl⟩
  · exact Or.inr rfl

theorem exit_open (h : s.closed = false) :
    s.exit i x pc = State.setPc { s with items := s.items ++ [x] } i pc := by
  simp [State.exit, State.put, h]

theorem exit_closed (h : s.closed = true) : s.exit i x pc = s.setPc i .raised := by
  simp [State.exit, State.put, h]

end Operations

variable [DecidableEq T] (maxSize : Option ℕ)

def step (s : State T) : Action T → Option (State T)
  | .acquire =>
    if s.closed then none
    else
      let (t, pc) := s.get maxSize s.tasks.length
      some (t.start pc)
  | .locked i =>
    match s.tasks[i]?, s.lock with
    | some .locking, none =>
      let (t, pc) := s.createItem maxSize i
      some (t.setPc i pc)
    | some .closeLocking, none =>
      let (t, pc) := s.closeItems i
      some (t.setPc i pc)
    | _, _ => none
  | .constructed i x =>
    match s.tasks[i]? with
    | some .constructing =>
      some (State.setPc { s with
        created := s.created + 1
        itemSet := s.itemSet.insert x
        lock := none } i (.borrowing x))
    | _ => none
  | .failed i =>
    match s.tasks[i]? with
    | some .constructing => some (State.setPc { s with lock := none } i .raised)
    | _ => none
  | .got i =>
    match s.tasks[i]?, s.items with
    | some (.getting locked), x :: items =>
      some (State.setPc { s with items := items, lock := if locked then none else s.lock } i
        (.borrowing x))
    | _, _ => none
  | .released i =>
    match s.tasks[i]? with
    | some (.borrowing x) => some (s.exit i x .released)
    | _ => none
  | .cancelled i =>
    match s.tasks[i]? with
    | some .locking | some .closeLocking | some (.getting false) => some (s.setPc i .raised)
    | some .constructing | some (.getting true) | some (.closing _) =>
      some (State.setPc { s with lock := none } i .raised)
    | some (.borrowing x) => some (s.exit i x .raised)
    | _ => none
  | .close =>
    if s.Uncontended then
      let (t, pc) := s.closeItems s.tasks.length
      some (t.start pc)
    else some (s.start .closeLocking)
  | .itemClosed i x =>
    match s.tasks[i]? with
    | some (.closing items) =>
      if x ∈ items then
        some (State.setPc { s with closedItems := s.closedItems ++ [x] } i
          (.closing (items.erase x)))
      else none
    | _ => none
  | .closeReturned i =>
    match s.tasks[i]? with
    | some (.closing []) => some (State.setPc { s with lock := none } i .closed)
    | _ => none

inductive Step (s : State T) : Action T → State T → Prop
  | acquire (hc : s.closed = false) :
      Step s .acquire ((s.get maxSize s.tasks.length).1.start (s.get maxSize s.tasks.length).2)
  | locked {i : ℕ} (ht : s.tasks[i]? = some .locking) (hl : s.lock = none) :
      Step s (.locked i) ((s.createItem maxSize i).1.setPc i (s.createItem maxSize i).2)
  | closeLocked {i : ℕ} (ht : s.tasks[i]? = some .closeLocking) (hl : s.lock = none) :
      Step s (.locked i) ((s.closeItems i).1.setPc i (s.closeItems i).2)
  | constructed {i : ℕ} {x : T} (ht : s.tasks[i]? = some .constructing) :
      Step s (.constructed i x) (State.setPc { s with
        created := s.created + 1
        itemSet := s.itemSet.insert x
        lock := none } i (.borrowing x))
  | failed {i : ℕ} (ht : s.tasks[i]? = some .constructing) :
      Step s (.failed i) (State.setPc { s with lock := none } i .raised)
  | got {i : ℕ} {locked : Bool} {x : T} {items : List T}
      (ht : s.tasks[i]? = some (.getting locked)) (hx : s.items = x :: items) :
      Step s (.got i) (State.setPc { s with
        items := items
        lock := if locked then none else s.lock } i (.borrowing x))
  | released {i : ℕ} {x : T} (ht : s.tasks[i]? = some (.borrowing x)) :
      Step s (.released i) (s.exit i x .released)
  | cancelledWaiting {i : ℕ} {pc : Pc T} (ht : s.tasks[i]? = some pc)
      (hp : pc.Waits ∨ pc = .getting false) : Step s (.cancelled i) (s.setPc i .raised)
  | cancelledLocked {i : ℕ} {pc : Pc T} (ht : s.tasks[i]? = some pc) (hp : pc.Locks) :
      Step s (.cancelled i) (State.setPc { s with lock := none } i .raised)
  | cancelledBorrowing {i : ℕ} {x : T} (ht : s.tasks[i]? = some (.borrowing x)) :
      Step s (.cancelled i) (s.exit i x .raised)
  | close (hu : s.Uncontended) :
      Step s .close ((s.closeItems s.tasks.length).1.start (s.closeItems s.tasks.length).2)
  | closeWaits (hu : ¬ s.Uncontended) : Step s .close (s.start .closeLocking)
  | itemClosed {i : ℕ} {x : T} {items : List T} (ht : s.tasks[i]? = some (.closing items))
      (hx : x ∈ items) :
      Step s (.itemClosed i x)
        (State.setPc { s with closedItems := s.closedItems ++ [x] } i (.closing (items.erase x)))
  | closeReturned {i : ℕ} (ht : s.tasks[i]? = some (.closing [])) :
      Step s (.closeReturned i) (State.setPc { s with lock := none } i .closed)

variable {maxSize} {s t : State T} {a : Action T}

theorem step_cases (h : step maxSize s a = some t) : Step maxSize s a t := by
  cases a with
  | acquire =>
    simp only [step] at h
    split at h
    · cases h
    · rename_i hc
      obtain rfl := Option.some.inj h
      exact .acquire (by simpa using hc)
  | locked i =>
    simp only [step] at h
    split at h
    · rename_i ht hl
      obtain rfl := Option.some.inj h
      exact .locked ht hl
    · rename_i ht hl
      obtain rfl := Option.some.inj h
      exact .closeLocked ht hl
    · cases h
  | constructed i x =>
    simp only [step] at h
    split at h
    · rename_i ht
      obtain rfl := Option.some.inj h
      exact .constructed ht
    · cases h
  | failed i =>
    simp only [step] at h
    split at h
    · rename_i ht
      obtain rfl := Option.some.inj h
      exact .failed ht
    · cases h
  | got i =>
    simp only [step] at h
    split at h
    · rename_i ht hx
      obtain rfl := Option.some.inj h
      exact .got ht hx
    · cases h
  | released i =>
    simp only [step] at h
    split at h
    · rename_i ht
      obtain rfl := Option.some.inj h
      exact .released ht
    · cases h
  | cancelled i =>
    simp only [step] at h
    split at h
    · rename_i ht
      obtain rfl := Option.some.inj h
      exact .cancelledWaiting ht (Or.inl trivial)
    · rename_i ht
      obtain rfl := Option.some.inj h
      exact .cancelledWaiting ht (Or.inl trivial)
    · rename_i ht
      obtain rfl := Option.some.inj h
      exact .cancelledWaiting ht (Or.inr rfl)
    · rename_i ht
      obtain rfl := Option.some.inj h
      exact .cancelledLocked ht trivial
    · rename_i ht
      obtain rfl := Option.some.inj h
      exact .cancelledLocked ht trivial
    · rename_i items ht
      obtain rfl := Option.some.inj h
      exact .cancelledLocked ht trivial
    · rename_i ht
      obtain rfl := Option.some.inj h
      exact .cancelledBorrowing ht
    · cases h
  | close =>
    simp only [step] at h
    split at h
    · rename_i hu
      obtain rfl := Option.some.inj h
      exact .close hu
    · rename_i hu
      obtain rfl := Option.some.inj h
      exact .closeWaits hu
  | itemClosed i x =>
    simp only [step] at h
    split at h
    · rename_i ht
      split at h
      · rename_i hx
        obtain rfl := Option.some.inj h
        exact .itemClosed ht hx
      · cases h
    · cases h
  | closeReturned i =>
    simp only [step] at h
    split at h
    · rename_i ht
      obtain rfl := Option.some.inj h
      exact .closeReturned ht
    · cases h

end AioPika.Pool
