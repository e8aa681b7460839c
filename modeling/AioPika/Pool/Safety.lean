import AioPika.Foundation.Members
import AioPika.Pool.Machine
import Mathlib.Data.List.Nodup

/-! # What a pool owns

The lock excludes all but one task from making items and from closing the pool,
so that the limit is tested with the count that the next constructor adds to. On
an open pool every item is in the idle queue or with one borrower.
-/

namespace AioPika.Pool

open Transition

variable {T : Type*} {maxSize : Option ℕ} {s t : State T} {i : ℕ} {pc pc' : Pc T} {x : T}

/-- A task in a locked block holds the lock. -/
def Exclusive (s : State T) : Prop :=
  ∀ i pc, s.tasks[i]? = some pc → pc.Locks → s.lock = some i

theorem fresh_exclusive : Exclusive (fresh : State T) := by
  rintro i pc ht
  cases ht

theorem Exclusive.move (h : Exclusive s) (htasks : t.tasks = s.tasks.set i pc')
    (hi : pc'.Locks → t.lock = some i) (hj : ∀ j ≠ i, s.lock = some j → t.lock = some j) :
    Exclusive t := by
  intro j q hq hl
  rw [htasks] at hq
  rcases Members.of_set hq with ⟨rfl, rfl⟩ | ⟨hne, hq⟩
  · exact hi hl
  · exact hj j hne (h j q hq hl)

theorem Exclusive.start (h : Exclusive s) (hp : ¬ pc.Locks) : Exclusive (s.start pc) := by
  intro j q hq hl
  rcases Members.of_append hq with hq | ⟨-, rfl⟩
  · exact h j q hq hl
  · exact absurd hl hp

theorem Exclusive.only (h : Exclusive s) (ht : s.tasks[i]? = some pc) (hp : pc.Locks) :
    ∀ j ≠ i, s.lock ≠ some j := by
  intro j hne hj
  have hi := h i pc ht hp
  rw [hi] at hj
  exact hne (Option.some.inj hj).symm

theorem Exclusive.release (h : Exclusive s) (ht : s.tasks[i]? = some pc) (hp : pc.Locks)
    (htasks : t.tasks = s.tasks.set i pc') (hp' : ¬ pc'.Locks) : Exclusive t :=
  h.move htasks (fun hl => absurd hl hp') fun j hne hj => absurd hj (h.only ht hp j hne)

/-- What an operation under the lock does to the lock on behalf of task `i`. -/
structure Grants (s : State T) (i : ℕ) (r : State T × Pc T) : Prop where
  tasks : r.1.tasks = s.tasks
  locks : r.2.Locks → r.1.lock = some i
  others : ∀ j ≠ i, s.lock = some j → r.1.lock = some j

theorem createItem_grants (hl : s.lock = none) : Grants s i (s.createItem maxSize i) := by
  have hfree : ∀ j ≠ i, s.lock ≠ some j := by simp [hl]
  rcases createItem_cases maxSize s i with
    ⟨x, items, -, he⟩ | ⟨-, he⟩ | ⟨-, he⟩
  · rw [he]
    exact ⟨rfl, False.elim, fun j hne hj => absurd hj (hfree j hne)⟩
  · rw [he]
    exact ⟨rfl, fun _ => rfl, fun j hne hj => absurd hj (hfree j hne)⟩
  · rw [he]
    exact ⟨rfl, fun _ => rfl, fun j hne hj => absurd hj (hfree j hne)⟩

theorem get_grants : Grants s i (s.get maxSize i) := by
  rcases get_cases maxSize s i with
    ⟨x, items, -, he⟩ | ⟨pc, rfl | rfl, he⟩ | ⟨hl, -, he⟩
  · rw [he]
    exact ⟨rfl, False.elim, fun _ _ hj => hj⟩
  · rw [he]
    exact ⟨rfl, False.elim, fun _ _ hj => hj⟩
  · rw [he]
    exact ⟨rfl, False.elim, fun _ _ hj => hj⟩
  · rw [he]
    exact ⟨rfl, fun _ => rfl, fun j _ hj => by simp [hl] at hj⟩

theorem closeItems_grants (hl : s.lock = none) : Grants s i (s.closeItems i) := by
  have hfree : ∀ j ≠ i, s.lock ≠ some j := by simp [hl]
  rcases closeItems_cases s i with ⟨-, he⟩ | he
  · rw [he]
    exact ⟨rfl, False.elim, fun j hne hj => absurd hj (hfree j hne)⟩
  · rw [he]
    exact ⟨rfl, fun _ => rfl, fun j hne hj => absurd hj (hfree j hne)⟩

theorem Exclusive.grant {r : State T × Pc T} (h : Exclusive s) (hr : Grants s i r) :
    Exclusive (r.1.setPc i r.2) :=
  h.move (by rw [State.setPc_tasks, hr.tasks]) hr.locks hr.others

theorem Exclusive.begin {r : State T × Pc T} (h : Exclusive s) (hr : Grants s s.tasks.length r) :
    Exclusive (r.1.start r.2) := by
  have hs : Exclusive (s.start .raised) := h.start id
  refine hs.move (i := s.tasks.length) ?_ hr.locks hr.others
  rw [State.start_tasks, hr.tasks]
  simp

theorem exit_exclusive (h : Exclusive s) (hp : ¬ pc.Locks) : Exclusive (s.exit i x pc) := by
  cases hc : s.closed with
  | false =>
    rw [exit_open hc]
    exact h.move rfl (fun hl => absurd hl hp) fun _ _ hj => hj
  | true =>
    rw [exit_closed hc]
    exact h.move rfl False.elim fun _ _ hj => hj

theorem exclusive_step [DecidableEq T] {a : Action T} (h : Exclusive s)
    (hs : step maxSize s a = some t) : Exclusive t := by
  cases step_cases hs with
  | acquire => exact h.begin get_grants
  | locked ht hl => exact h.grant (createItem_grants hl)
  | closeLocked ht hl => exact h.grant (closeItems_grants hl)
  | constructed ht => exact h.release ht trivial rfl id
  | failed ht => exact h.release ht trivial rfl id
  | @got i locked x items ht hx =>
    cases locked with
    | true => exact h.release ht trivial rfl id
    | false => exact h.move rfl False.elim fun _ _ hj => hj
  | released => exact exit_exclusive h id
  | cancelledWaiting => exact h.move rfl False.elim fun _ _ hj => hj
  | cancelledLocked ht hp => exact h.release ht hp rfl id
  | cancelledBorrowing => exact exit_exclusive h id
  | close hu => exact h.begin (closeItems_grants hu.1)
  | closeWaits => exact h.start id
  | itemClosed ht hx => exact h.move rfl (fun _ => h _ _ ht trivial) fun _ _ hj => hj
  | closeReturned ht => exact h.release ht trivial rfl id

/-- The user does not close the pool. -/
def Action.Open : Action T → Prop
  | .close => False
  | _ => True

instance : DecidablePred (Action.Open (T := T))
  | .close => .isFalse id
  | .acquire | .locked _ | .constructed _ _ | .failed _ | .got _ | .released _ | .cancelled _
  | .itemClosed _ _ | .closeReturned _ => .isTrue trivial

/-- The constructor returns an object that it has not returned before. -/
def FreshItem (s : State T) : Action T → Prop
  | .constructed _ x => x ∉ s.itemSet
  | _ => True

instance [DecidableEq T] (s : State T) : DecidablePred (FreshItem s)
  | .constructed _ x => inferInstanceAs (Decidable (x ∉ s.itemSet))
  | .acquire | .locked _ | .failed _ | .got _ | .released _ | .cancelled _ | .close
  | .itemClosed _ _ | .closeReturned _ => .isTrue trivial

/-- The task is in `close()`. -/
def Pc.Closes : Pc T → Prop
  | .closeLocking | .closing _ | .closed => True
  | _ => False

/-- A task outside `close()` changes its place to `pc'` and makes nothing. -/
structure Keeps (s t : State T) (pc' : Pc T) : Prop where
  closed : t.closed = s.closed
  created : t.created = s.created
  itemSet : t.itemSet = s.itemSet
  closedItems : t.closedItems = s.closedItems
  unclosing : ¬ pc'.Closes

theorem Keeps.setPc (h : Keeps s t pc') : Keeps s (t.setPc i pc') pc' :=
  ⟨h.closed, h.created, h.itemSet, h.closedItems, h.unclosing⟩

theorem Keeps.start (h : Keeps s t pc') : Keeps (s.start pc) (t.start pc') pc' :=
  ⟨h.closed, h.created, h.itemSet, h.closedItems, h.unclosing⟩

theorem createItem_keeps : Keeps s (s.createItem maxSize i).1 (s.createItem maxSize i).2 := by
  rcases createItem_cases maxSize s i with
    ⟨x, items, -, he⟩ | ⟨-, he⟩ | ⟨-, he⟩ <;> rw [he] <;> exact ⟨rfl, rfl, rfl, rfl, id⟩

theorem get_keeps : Keeps s (s.get maxSize i).1 (s.get maxSize i).2 := by
  rcases get_cases maxSize s i with
    ⟨x, items, -, he⟩ | ⟨q, rfl | rfl, he⟩ | ⟨-, -, he⟩ <;> rw [he] <;>
    exact ⟨rfl, rfl, rfl, rfl, id⟩

theorem exit_keeps (hp : ¬ pc.Closes) : ∃ pc', (s.exit i x pc).tasks = s.tasks.set i pc' ∧
    (pc' = pc ∨ pc' = .raised) ∧ Keeps s (s.exit i x pc) pc' := by
  cases hc : s.closed with
  | false =>
    rw [exit_open hc]
    exact ⟨pc, rfl, Or.inl rfl, rfl, rfl, rfl, rfl, hp⟩
  | true =>
    rw [exit_closed hc]
    exact ⟨.raised, rfl, Or.inr rfl, rfl, rfl, rfl, rfl, id⟩

variable [DecidableEq T]

/-- A pool that is not closed has each of its items in one place, and fewer than its limit while
it makes one. -/
structure Owned (maxSize : Option ℕ) (s : State T) : Prop where
  exclusive : Exclusive s
  closed : s.closed = false
  tasks : ∀ pc ∈ s.tasks, ¬ pc.Closes
  created : s.created = s.itemSet.length
  nodup : s.itemSet.Nodup
  custody : ∀ x, s.items.count x + Custody.count Pc.holds s.tasks x = s.itemSet.count x
  bounded : ∀ n, maxSize = some n → 0 < n →
    s.created ≤ n ∧ (.constructing ∈ s.tasks → s.created < n)

/-- What a task does to the items when its place changes from `pc` to `pc'`. -/
structure Moves (maxSize : Option ℕ) (s : State T) (pc : Pc T) (t : State T) (pc' : Pc T) : Prop
    extends Keeps s t pc' where
  room : pc' = .constructing → ¬ s.isOverflow maxSize = true
  custody : ∀ x, t.items.count x + pc'.holds.count x = s.items.count x + pc.holds.count x

theorem Moves.setPc (h : Moves maxSize s pc t pc') : Moves maxSize s pc (t.setPc i pc') pc' :=
  ⟨h.toKeeps.setPc, h.room, h.custody⟩

theorem Moves.start (h : Moves maxSize s pc t pc') : Moves maxSize s pc (t.start pc') pc' :=
  ⟨⟨h.closed, h.created, h.itemSet, h.closedItems, h.unclosing⟩, h.room, h.custody⟩

/-- One task has changed its place from `pc` to `pc'`, or a new one is there. -/
inductive Moved (ts : List (Pc T)) (pc pc' : Pc T) : List (Pc T) → Prop
  | set {i : ℕ} (ht : ts[i]? = some pc) : Moved ts pc pc' (ts.set i pc')
  | append (hp : pc.holds = []) : Moved ts pc pc' (ts ++ [pc'])

omit [DecidableEq T] in
theorem Moved.mem {ts ts' : List (Pc T)} (h : Moved ts pc pc' ts') {q : Pc T} (hq : q ∈ ts') :
    q ∈ ts ∨ q = pc' := by
  cases h with
  | set => exact List.mem_or_eq_of_mem_set hq
  | append => exact (List.mem_append.mp hq).imp_right List.mem_singleton.mp

theorem Moved.count {ts ts' : List (Pc T)} (h : Moved ts pc pc' ts') (x : T) :
    Custody.count Pc.holds ts' x + pc.holds.count x =
      Custody.count Pc.holds ts x + pc'.holds.count x := by
  cases h with
  | set ht => exact Custody.count_set ht
  | append hp =>
    rw [Custody.count_append, Custody.count_cons, Custody.count_nil, hp, List.count_nil]
    rfl

theorem createItem_moves (hp : pc.holds = []) :
    Moves maxSize s pc (s.createItem maxSize i).1 (s.createItem maxSize i).2 := by
  refine ⟨createItem_keeps, fun hc => ?_, fun y => ?_⟩
  · rcases createItem_cases maxSize s i with ⟨x, items, -, he⟩ | ⟨-, he⟩ | ⟨ho, -⟩
    · rw [he] at hc
      cases hc
    · rw [he] at hc
      cases hc
    · exact ho
  · rw [hp]
    rcases createItem_cases maxSize s i with ⟨x, items, hx, he⟩ | ⟨-, he⟩ | ⟨-, he⟩ <;> rw [he]
    · rw [hx]
      simp [Pc.holds, List.count_cons]
    · rfl
    · rfl

theorem get_moves (hp : pc.holds = []) :
    Moves maxSize s pc (s.get maxSize i).1 (s.get maxSize i).2 := by
  refine ⟨get_keeps, fun hc => ?_, fun y => ?_⟩
  · rcases get_cases maxSize s i with ⟨x, items, -, he⟩ | ⟨q, rfl | rfl, he⟩ | ⟨-, ho, -⟩
    · rw [he] at hc
      cases hc
    · rw [he] at hc
      cases hc
    · rw [he] at hc
      cases hc
    · exact ho
  · rw [hp]
    rcases get_cases maxSize s i with ⟨x, items, hx, he⟩ | ⟨q, rfl | rfl, he⟩ | ⟨-, -, he⟩ <;>
      rw [he]
    · rw [hx]
      simp [Pc.holds, List.count_cons]
    · rfl
    · rfl
    · rfl

variable (maxSize) in
theorem exit_moves (hc : s.closed = false) (hp : pc = .released ∨ pc = .raised) :
    (s.exit i x pc).tasks = s.tasks.set i pc ∧
      Moves maxSize s (.borrowing x) (s.exit i x pc) pc := by
  rw [exit_open hc]
  refine ⟨rfl, ⟨rfl, rfl, rfl, rfl, ?_⟩, ?_, fun y => ?_⟩
  · rcases hp with rfl | rfl <;> exact id
  · rcases hp with rfl | rfl <;> nofun
  · rcases hp with rfl | rfl <;> simp [Pc.holds]

variable {a : Action T} {as : List (Action T)} {ok : State T → Action T → Prop}

/-- An open pool: a constructor returns, or one task moves without making anything. -/
theorem step_moved (hc : s.closed = false) (htasks : ∀ pc ∈ s.tasks, ¬ pc.Closes) (ho : a.Open)
    (hs : step maxSize s a = some t) :
    (∃ i x, a = .constructed i x ∧ s.tasks[i]? = some .constructing ∧
      t = State.setPc { s with
        created := s.created + 1
        itemSet := s.itemSet.insert x
        lock := none } i (.borrowing x)) ∨
    ((∀ i x, a ≠ .constructed i x) ∧
      ∃ pc pc', Moved s.tasks pc pc' t.tasks ∧ Moves maxSize s pc t pc') := by
  cases step_cases hs with
  | acquire =>
    have hm : Moves maxSize s .raised (s.get maxSize s.tasks.length).1 _ := get_moves rfl
    refine Or.inr ⟨nofun, .raised, _, ?_, hm.start⟩
    rw [State.start_tasks, get_grants.tasks]
    exact .append rfl
  | @locked i ht hl =>
    have hm : Moves maxSize s .locking (s.createItem maxSize i).1 _ := createItem_moves rfl
    refine Or.inr ⟨nofun, .locking, _, ?_, hm.setPc⟩
    rw [State.setPc_tasks, (createItem_grants hl).tasks]
    exact .set ht
  | closeLocked ht => exact absurd trivial (htasks _ (List.mem_of_getElem? ht))
  | @constructed i x ht => exact Or.inl ⟨i, x, rfl, ht, rfl⟩
  | failed ht =>
    exact Or.inr ⟨nofun, _, _, .set ht, ⟨rfl, rfl, rfl, rfl, id⟩, nofun, fun y => rfl⟩
  | @got i locked x items ht hx =>
    refine Or.inr ⟨nofun, _, _, .set ht, ⟨rfl, rfl, rfl, rfl, id⟩, nofun, fun y => ?_⟩
    rw [hx]
    simp [Pc.holds, List.count_cons]
  | released ht =>
    obtain ⟨htasks', hm⟩ := exit_moves maxSize hc (Or.inl rfl)
    exact Or.inr ⟨nofun, _, _, htasks' ▸ .set ht, hm⟩
  | @cancelledWaiting i pc ht hp =>
    refine Or.inr ⟨nofun, _, _, .set ht, ⟨rfl, rfl, rfl, rfl, id⟩, nofun, fun y => ?_⟩
    have hn : pc.holds = [] := by
      cases pc with
      | borrowing x => rcases hp with hp | hp <;> cases hp
      | _ => rfl
    rw [hn]
    rfl
  | @cancelledLocked i pc ht hp =>
    refine Or.inr ⟨nofun, _, _, .set ht, ⟨rfl, rfl, rfl, rfl, id⟩, nofun, fun y => ?_⟩
    have hn : pc.holds = [] := by
      cases pc with
      | borrowing x => cases hp
      | _ => rfl
    rw [hn]
    rfl
  | cancelledBorrowing ht =>
    obtain ⟨htasks', hm⟩ := exit_moves maxSize hc (Or.inr rfl)
    exact Or.inr ⟨nofun, _, _, htasks' ▸ .set ht, hm⟩
  | close => exact ho.elim
  | closeWaits => exact ho.elim
  | itemClosed ht => exact absurd trivial (htasks _ (List.mem_of_getElem? ht))
  | closeReturned ht => exact absurd trivial (htasks _ (List.mem_of_getElem? ht))

/-- A pool that is not closed has made fewer items than its limit allows while it makes one. -/
structure Limited (maxSize : Option ℕ) (s : State T) : Prop where
  exclusive : Exclusive s
  closed : s.closed = false
  tasks : ∀ pc ∈ s.tasks, ¬ pc.Closes
  bounded : ∀ n, maxSize = some n → 0 < n →
    s.created ≤ n ∧ (.constructing ∈ s.tasks → s.created < n)

omit [DecidableEq T] in
theorem fresh_limited : Limited maxSize (fresh : State T) := by
  constructor
  · exact fresh_exclusive
  · rfl
  · rintro pc hm
    cases hm
  · intro n hn hpos
    exact ⟨Nat.zero_le n, fun hm => by cases hm⟩

theorem limited_step (h : Limited maxSize s) (ho : a.Open) (hs : step maxSize s a = some t) :
    Limited maxSize t := by
  have he : Exclusive t := exclusive_step h.exclusive hs
  rcases step_moved h.closed h.tasks ho hs with ⟨i, x, -, ht, rfl⟩ | ⟨-, pc, pc', hmoved, hm⟩
  · constructor
    · exact he
    · exact h.closed
    · intro q hq
      rcases List.mem_or_eq_of_mem_set hq with hq | rfl
      · exact h.tasks q hq
      · exact id
    · intro n hn hpos
      have hroom : s.created < n := (h.bounded n hn hpos).2 (List.mem_of_getElem? ht)
      refine ⟨hroom, fun hq => ?_⟩
      -- no other task can be constructing
      obtain ⟨j, hj⟩ := List.getElem?_of_mem hq
      have hlock := he j _ hj trivial
      simp at hlock
  · constructor
    · exact he
    · rw [hm.closed, h.closed]
    · intro q hq
      rcases hmoved.mem hq with hq | rfl
      · exact h.tasks q hq
      · exact hm.unclosing
    · intro n hn hpos
      obtain ⟨hle, hlt⟩ := h.bounded n hn hpos
      rw [hm.created]
      refine ⟨hle, fun hq => ?_⟩
      rcases hmoved.mem hq with hq | hq
      · exact hlt hq
      · exact created_lt (hm.room hq.symm) hn hpos

def Action.Builds (x : T) : Action T → Bool
  | .constructed _ y => decide (y = x)
  | _ => false

/-- How often an item is idle or borrowed. -/
def State.held (s : State T) (x : T) : ℕ := s.items.count x + Custody.count Pc.holds s.tasks x

theorem held_step (h : Limited maxSize s) (ho : a.Open) (hs : step maxSize s a = some t) (x : T) :
    t.held x = s.held x + if a.Builds x then 1 else 0 := by
  rcases step_moved h.closed h.tasks ho hs with ⟨i, y, rfl, ht, rfl⟩ | ⟨hn, pc, pc', hmoved, hm⟩
  · have hset : Custody.count Pc.holds (s.tasks.set i (.borrowing y)) x +
        (Pc.constructing : Pc T).holds.count x =
        Custody.count Pc.holds s.tasks x + (Pc.borrowing y).holds.count x := Custody.count_set ht
    simp only [State.held, State.setPc_items, State.setPc_tasks, Pc.holds, List.count_cons,
      List.count_nil, Action.Builds, decide_eq_true_eq, beq_iff_eq] at hset ⊢
    omega
  · have hb : a.Builds x = false := by
      cases a with
      | constructed i y => exact absurd rfl (hn i y)
      | _ => rfl
    have hcount := hmoved.count x
    have hplaces := hm.custody x
    simp only [State.held, hb, Bool.false_eq_true, if_false]
    omega

def Action.Constructs : Action T → Bool
  | .constructed _ _ => true
  | _ => false

theorem made_step (hs : step maxSize s a = some t) :
    (∃ i x, a = .constructed i x ∧ t.created = s.created + 1 ∧ t.itemSet = s.itemSet.insert x) ∨
    ((∀ i x, a ≠ .constructed i x) ∧ t.created = s.created ∧ t.itemSet = s.itemSet) := by
  have hclose (i : ℕ) : (s.closeItems i).1.created = s.created ∧
      (s.closeItems i).1.itemSet = s.itemSet := by
    rcases closeItems_cases s i with ⟨-, he⟩ | he <;> rw [he] <;> exact ⟨rfl, rfl⟩
  have hexit (i : ℕ) (x : T) {pc : Pc T} (hp : ¬ pc.Closes) : (s.exit i x pc).created = s.created ∧
      (s.exit i x pc).itemSet = s.itemSet := by
    obtain ⟨_, -, -, hk⟩ := exit_keeps (s := s) (i := i) (x := x) hp
    exact ⟨hk.created, hk.itemSet⟩
  cases step_cases hs with
  | acquire => exact Or.inr ⟨nofun, get_keeps.created, get_keeps.itemSet⟩
  | locked => exact Or.inr ⟨nofun, createItem_keeps.created, createItem_keeps.itemSet⟩
  | closeLocked => exact Or.inr ⟨nofun, hclose _⟩
  | @constructed i x => exact Or.inl ⟨i, x, rfl, rfl, rfl⟩
  | failed => exact Or.inr ⟨nofun, rfl, rfl⟩
  | got => exact Or.inr ⟨nofun, rfl, rfl⟩
  | released => exact Or.inr ⟨nofun, hexit _ _ id⟩
  | cancelledWaiting => exact Or.inr ⟨nofun, rfl, rfl⟩
  | cancelledLocked => exact Or.inr ⟨nofun, rfl, rfl⟩
  | cancelledBorrowing => exact Or.inr ⟨nofun, hexit _ _ id⟩
  | close => exact Or.inr ⟨nofun, hclose _⟩
  | closeWaits => exact Or.inr ⟨nofun, rfl, rfl⟩
  | itemClosed => exact Or.inr ⟨nofun, rfl, rfl⟩
  | closeReturned => exact Or.inr ⟨nofun, rfl, rfl⟩

theorem Owned.limited (h : Owned maxSize s) : Limited maxSize s :=
  ⟨h.exclusive, h.closed, h.tasks, h.bounded⟩

theorem fresh_owned : Owned maxSize (fresh : State T) := by
  have h : Limited maxSize (fresh : State T) := fresh_limited
  exact ⟨h.exclusive, h.closed, h.tasks, rfl, List.nodup_nil, fun _ => rfl, h.bounded⟩

theorem owned_step (h : Owned maxSize s) (ho : a.Open) (hf : FreshItem s a)
    (hs : step maxSize s a = some t) : Owned maxSize t := by
  have hl : Limited maxSize t := limited_step h.limited ho hs
  have hheld (x : T) : t.held x = s.itemSet.count x + if a.Builds x then 1 else 0 := by
    rw [held_step h.limited ho hs, State.held, h.custody]
  rcases made_step hs with ⟨i, y, rfl, hcreated, hset⟩ | ⟨hn, hcreated, hset⟩
  · have hy : y ∉ s.itemSet := hf
    rw [List.insert_of_not_mem hy] at hset
    refine ⟨hl.exclusive, hl.closed, hl.tasks, ?_, ?_, fun x => ?_, hl.bounded⟩
    · rw [hcreated, hset, h.created, List.length_cons]
    · rw [hset]
      exact List.nodup_cons.mpr ⟨hy, h.nodup⟩
    · apply (hheld x).trans
      rw [hset, List.count_cons]
      simp [Action.Builds]
  · have hb (x : T) : a.Builds x = false := by
      cases a with
      | constructed i y => exact absurd rfl (hn i y)
      | _ => rfl
    refine ⟨hl.exclusive, hl.closed, hl.tasks, ?_, ?_, fun x => ?_, hl.bounded⟩
    · rw [hcreated, hset, h.created]
    · rw [hset]
      exact h.nodup
    · apply (hheld x).trans
      rw [hset, hb]
      rfl

/-- The count is the number of the items made, and the set has them all. -/
theorem run_made (h : Run (step maxSize) ok s as t) :
    t.created = s.created + as.countP Action.Constructs ∧
    ∀ x, x ∈ t.itemSet ↔ x ∈ s.itemSet ∨ ∃ i, .constructed i x ∈ as := by
  induction h with
  | nil s => simp
  | @cons s u t a as _ hs _ ih =>
    obtain ⟨hcreated, hset⟩ := ih
    rcases made_step hs with ⟨i, x, rfl, hc, hi⟩ | ⟨hn, hc, hi⟩
    · constructor
      · rw [hcreated, hc, List.countP_cons_of_pos rfl]
        omega
      · intro y
        rw [hset, hi, List.mem_insert_iff]
        simp only [List.mem_cons, Action.constructed.injEq, exists_or]
        grind
    · have ha : a.Constructs = false := by
        cases a with
        | constructed i x => exact absurd rfl (hn i x)
        | _ => rfl
      constructor
      · rw [hcreated, hc, List.countP_cons_of_neg (by simp [ha])]
      · intro y
        rw [hset, hi]
        have hne (i : ℕ) : (.constructed i y ∈ a :: as) ↔ .constructed i y ∈ as := by
          rw [List.mem_cons]
          exact or_iff_right (hn i y).symm
        simp only [hne]

/-- Task `j` is in a block that has borrowed the item. -/
def State.Borrows (s : State T) (j : ℕ) (x : T) : Prop := s.tasks[j]? = some (.borrowing x)

omit [DecidableEq T] in
theorem borrows_iff : s.Borrows i x ↔ Custody.Holder Pc.holds s.tasks x i := by
  constructor
  · intro ht
    exact ⟨.borrowing x, ht, List.mem_singleton_self x⟩
  · rintro ⟨pc, ht, hx⟩
    cases pc with
    | borrowing y =>
      obtain rfl := List.mem_singleton.mp hx
      exact ht
    | _ => cases hx

/-- A pool makes no more items than its limit allows, counts them, and never loses or doubles
one. -/
theorem pool_safe (hmax : ∀ n, maxSize = some n → 1 ≤ n)
    (hr : Run (step maxSize) (fun s a => a.Open ∧ FreshItem s a) fresh as s) :
    s.created = as.countP Action.Constructs ∧
    (∀ n, maxSize = some n → s.created ≤ n) ∧
    ∀ i x, .constructed i x ∈ as →
      (s.items.count x = 1 ∧ ∀ j, ¬ s.Borrows j x) ∨ (x ∉ s.items ∧ ∃! j, s.Borrows j x) := by
  have h : Owned maxSize s := by
    refine hr.invariant (fun s a t hi ha hs => ?_) fresh_owned
    exact owned_step hi ha.1 ha.2 hs
  obtain ⟨hcreated, hset⟩ := run_made hr
  constructor
  · rw [hcreated]
    exact Nat.zero_add _
  constructor
  · intro n hn
    exact (h.bounded n hn (hmax n hn)).1
  · intro i x hx
    have hmem : x ∈ s.itemSet := (hset x).mpr (Or.inr ⟨i, hx⟩)
    have hone : s.itemSet.count x = 1 := List.count_eq_one_of_mem h.nodup hmem
    have hplaces := h.custody x
    simp only [borrows_iff]
    rcases Nat.eq_zero_or_pos (s.items.count x) with hz | hp
    · right
      have hheld : Custody.count Pc.holds s.tasks x = 1 := by omega
      exact ⟨List.count_eq_zero.mp hz, Custody.existsUnique_holder hheld⟩
    · left
      have hheld : Custody.count Pc.holds s.tasks x = 0 := by omega
      exact ⟨by omega, fun j => Custody.not_holder_of_count hheld⟩

/-- A constructor fails, the next one makes the only item, and of two tasks that wait for it one
is cancelled. -/
def handedOver : List (Action ℕ) :=
  [.acquire, .acquire, .failed 0, .locked 1, .constructed 1 7, .acquire, .acquire, .cancelled 2,
    .released 1, .got 3]

def lent : State ℕ :=
  ⟨false, 1, [7], [], none, [.raised, .released, .raised, .borrowing 7], []⟩

theorem handedOver_safe :
    Run (step (some 1)) (fun s a => a.Open ∧ FreshItem s a) fresh handedOver lent ∧
    lent.created ≤ 1 ∧ 7 ∉ lent.items ∧ ∃! j, lent.Borrows j 7 := by
  have hr : Run (step (some 1)) (fun s a => a.Open ∧ FreshItem s a) fresh handedOver lent :=
    run_of_checked rfl
  have hmax (n : ℕ) (hn : some 1 = some n) : 1 ≤ n := (Option.some.inj hn).symm ▸ Nat.le_refl 1
  obtain ⟨-, hle, hplace⟩ := pool_safe hmax hr
  rcases hplace 1 7 (by decide) with ⟨-, hn⟩ | h
  · exact absurd rfl (hn 3)
  · exact ⟨hr, hle 1 rfl, h⟩

end AioPika.Pool
