import AioPika.Foundation.Dict
import Mathlib.Data.List.Perm.Basic

/-! # Registries of weakly held objects

A registry keeps sets of object identifiers under keys, beside the objects that
are still referenced. A set forgets the objects that have been collected, and
is iterated in an order of its own; the keys are iterated in the order of their
first use.
-/

/-- An order in which sets are iterated. -/
structure SetOrder where
  order : List ℕ → List ℕ
  perm : ∀ l, (order l).Perm l

/-- Iteration in the order of insertion. -/
def SetOrder.insertion : SetOrder := ⟨id, fun _ => .refl _⟩

structure WeakRegistry (κ τ : Type*) where
  /-- The identifiers that were added under each key. -/
  sets : Dict κ (List ℕ)
  /-- The objects that have not been collected, registered or not. -/
  objects : Dict ℕ τ

namespace WeakRegistry

variable {κ τ : Type*} [DecidableEq κ]

def empty : WeakRegistry κ τ := ⟨.empty, .empty⟩

def put (r : WeakRegistry κ τ) (i : ℕ) (x : τ) : WeakRegistry κ τ :=
  { r with objects := r.objects.set i x }

def add (r : WeakRegistry κ τ) (k : κ) (i : ℕ) : WeakRegistry κ τ :=
  { r with sets := r.sets.set k ((r.sets.get? k).getD [] ++ [i]) }

def pop (r : WeakRegistry κ τ) (k : κ) : WeakRegistry κ τ :=
  { r with sets := r.sets.pop k }

def collect (r : WeakRegistry κ τ) (i : ℕ) : WeakRegistry κ τ :=
  { r with objects := r.objects.pop i }

/-- The identifiers under a key that have not been collected. -/
def live (r : WeakRegistry κ τ) (ids : List ℕ) : List ℕ :=
  ids.filter fun i => (r.objects.get? i).isSome

/-- The registered objects, key by key. -/
def iter (o : SetOrder) (r : WeakRegistry κ τ) : List ℕ :=
  r.sets.items.flatMap fun e => o.order (r.live e.2)

def Listed (r : WeakRegistry κ τ) (k : κ) (i : ℕ) : Prop :=
  ∃ ids, r.sets.get? k = some ids ∧ i ∈ ids

def Mem (r : WeakRegistry κ τ) (k : κ) (i : ℕ) (x : τ) : Prop :=
  r.Listed k i ∧ r.objects.get? i = some x

/-- The identifiers that are in use are below a bound. -/
structure Below (r : WeakRegistry κ τ) (n : ℕ) : Prop where
  listed : ∀ k i, r.Listed k i → i < n
  object : ∀ i x, r.objects.get? i = some x → i < n

variable {r : WeakRegistry κ τ} {k k' : κ} {i j n m : ℕ} {x y z : τ} {o : SetOrder}

omit [DecidableEq κ] in
theorem mem_live {ids : List ℕ} : i ∈ r.live ids ↔ i ∈ ids ∧ ∃ x, r.objects.get? i = some x := by
  simp [live, Option.isSome_iff_exists]

theorem mem_iter : i ∈ r.iter o ↔ ∃ k x, r.Mem k i x := by
  simp only [iter, List.mem_flatMap, (o.perm _).mem_iff, mem_live]
  constructor
  · rintro ⟨⟨k, ids⟩, he, hi, x, hx⟩
    exact ⟨k, x, ⟨ids, Dict.mem_items_iff.mp he, hi⟩, hx⟩
  · rintro ⟨k, x, ⟨ids, hk, hi⟩, hx⟩
    exact ⟨(k, ids), Dict.mem_items_iff.mpr hk, hi, x, hx⟩

@[simp] theorem not_listed_empty : ¬ (empty : WeakRegistry κ τ).Listed k i := by
  rintro ⟨ids, h, -⟩
  cases h

theorem listed_put : (r.put i x).Listed k j ↔ r.Listed k j := Iff.rfl

theorem listed_collect : (r.collect i).Listed k j ↔ r.Listed k j := Iff.rfl

theorem listed_add : (r.add k i).Listed k' j ↔ r.Listed k' j ∨ k' = k ∧ j = i := by
  simp only [Listed, add, Dict.get?_set]
  by_cases hk : k' = k
  · subst hk
    cases h : r.sets.get? k' with
    | none => simp
    | some ids => simp
  · simp [hk]

theorem listed_pop : (r.pop k).Listed k' j ↔ r.Listed k' j ∧ k' ≠ k := by
  simp only [Listed, pop, Dict.get?_pop]
  by_cases hk : k' = k <;> simp [hk]

omit [DecidableEq κ] in
theorem put_of_get? (h : r.objects.get? i = some x) : r.put i x = r := by
  rw [put, Dict.set_of_get? h]

omit [DecidableEq κ] in
theorem put_put : (r.put i x).put i y = r.put i y := by simp [put]

omit [DecidableEq κ] in
theorem get?_put_self : (r.put i x).objects.get? i = some x := Dict.get?_set_self

theorem mem_put : (r.put i x).Mem k j y ↔
    r.Listed k j ∧ (j = i ∧ y = x ∨ j ≠ i ∧ r.objects.get? j = some y) := by
  apply and_congr listed_put
  simp only [put, Dict.get?_set]
  by_cases hj : j = i <;> simp [hj, eq_comm]

theorem mem_put_new (h : r.Below n) : (r.put n x).Mem k j y ↔ r.Mem k j y := by
  rw [mem_put, Mem]
  apply and_congr_right
  intro hl
  have hj := h.listed k j hl
  constructor
  · rintro (⟨rfl, -⟩ | ⟨-, hy⟩)
    · omega
    · exact hy
  · intro hy
    exact Or.inr ⟨by omega, hy⟩

theorem Mem.of_put (hx : r.objects.get? i = some x) (h : (r.put i y).Mem k j z) :
    r.Mem k j z ∨ r.Mem k i x ∧ j = i ∧ z = y := by
  obtain ⟨hl, ⟨rfl, rfl⟩ | ⟨-, hz⟩⟩ := mem_put.mp h
  · exact Or.inr ⟨⟨hl, hx⟩, rfl, rfl⟩
  · exact Or.inl ⟨hl, hz⟩

theorem mem_add : (r.add k i).Mem k' j y ↔
    r.Mem k' j y ∨ k' = k ∧ j = i ∧ r.objects.get? i = some y := by
  simp only [Mem, listed_add]
  constructor
  · rintro ⟨h | ⟨rfl, rfl⟩, hy⟩
    · exact Or.inl ⟨h, hy⟩
    · exact Or.inr ⟨rfl, rfl, hy⟩
  · rintro (⟨h, hy⟩ | ⟨rfl, rfl, hy⟩)
    · exact ⟨Or.inl h, hy⟩
    · exact ⟨Or.inr ⟨rfl, rfl⟩, hy⟩

theorem mem_pop : (r.pop k).Mem k' j y ↔ r.Mem k' j y ∧ k' ≠ k := by
  simp only [Mem, listed_pop]
  exact and_right_comm

theorem mem_collect : (r.collect i).Mem k j y ↔ r.Mem k j y ∧ j ≠ i := by
  rw [Mem, listed_collect, Mem, and_assoc]
  simp only [collect, Dict.get?_pop]
  by_cases hj : j = i <;> simp [hj]

theorem Below.mono (h : r.Below n) (hn : n ≤ m) : r.Below m :=
  ⟨fun k i hi => Nat.lt_of_lt_of_le (h.listed k i hi) hn,
    fun i x hx => Nat.lt_of_lt_of_le (h.object i x hx) hn⟩

theorem below_empty : (empty : WeakRegistry κ τ).Below n :=
  ⟨fun _ _ h => absurd h not_listed_empty, by simp [empty]⟩

theorem Below.put (h : r.Below n) (hi : i < n) : (r.put i x).Below n := by
  constructor
  · exact h.listed
  · intro j y hy
    simp only [WeakRegistry.put, Dict.get?_set] at hy
    split at hy
    · omega
    · exact h.object j y hy

theorem Below.add (h : r.Below n) (hi : i < n) : (r.add k i).Below n := by
  constructor
  · intro k' j hj
    rcases listed_add.mp hj with hj | ⟨-, rfl⟩
    · exact h.listed k' j hj
    · exact hi
  · exact h.object

theorem Below.pop (h : r.Below n) : (r.pop k).Below n :=
  ⟨fun k' j hj => h.listed k' j (listed_pop.mp hj).1, h.object⟩

theorem Below.collect (h : r.Below n) : (r.collect i).Below n := by
  constructor
  · exact h.listed
  · intro j y hy
    exact h.object j y (Dict.of_get?_pop hy).2

end WeakRegistry
