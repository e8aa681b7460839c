import Mathlib.Data.List.Nodup
import Mathlib.Data.List.Basic

/-! # Insertion-ordered dictionaries

A dictionary is a list of entries with distinct keys. Assigning to a present
key keeps its position, and a new key goes to the end.
-/

/-- An insertion-ordered dictionary: its entries in order, under distinct keys. -/
@[ext] structure Dict (κ ν : Type*) where
  items : List (κ × ν)
  nodup : (items.map Prod.fst).Nodup

namespace Dict

variable {κ ν : Type*} [DecidableEq κ]

def assign (k : κ) (v : ν) : List (κ × ν) → List (κ × ν)
  | [] => [(k, v)]
  | e :: l => if e.1 = k then (k, v) :: l else e :: assign k v l

def find (k : κ) : List (κ × ν) → Option ν
  | [] => none
  | e :: l => if e.1 = k then some e.2 else find k l

section Lists

variable {k k' : κ} {v v' : ν} {l : List (κ × ν)}

theorem map_fst_assign : (assign k v l).map Prod.fst =
    if k ∈ l.map Prod.fst then l.map Prod.fst else l.map Prod.fst ++ [k] := by
  induction l with
  | nil => simp [assign]
  | cons e l ih =>
    by_cases he : e.1 = k
    · simp [assign, he]
    · simp only [assign, if_neg he, List.map_cons, ih, List.mem_cons, Ne.symm he, false_or]
      split <;> simp

theorem find_assign : find k' (assign k v l) = if k' = k then some v else find k' l := by
  induction l with
  | nil => simp [assign, find, eq_comm]
  | cons e l ih =>
    by_cases he : e.1 = k
    · by_cases h : k' = k
      · simp [assign, find, he, h]
      · simp [assign, find, he, h, Ne.symm h]
    · by_cases h : k' = k
      · subst h; simp [assign, find, he, ih]
      · simp only [assign, if_neg he, find, ih, if_neg h]

theorem find_eq_none_iff : find k l = none ↔ k ∉ l.map Prod.fst := by
  induction l with
  | nil => simp [find]
  | cons e l ih =>
    by_cases he : e.1 = k
    · simp [find, he]
    · simp only [find, if_neg he, ih, List.map_cons, List.mem_cons, not_or]
      exact ⟨fun h => ⟨fun h' => he h'.symm, h⟩, fun h => h.2⟩

theorem mem_of_find (h : find k l = some v) : (k, v) ∈ l := by
  induction l with
  | nil => simp [find] at h
  | cons e l ih =>
    by_cases he : e.1 = k
    · simp only [find, if_pos he, Option.some.injEq] at h
      subst he; subst h
      exact List.mem_cons_self
    · simp only [find, if_neg he] at h
      exact List.mem_cons_of_mem _ (ih h)

theorem find_of_mem (hn : (l.map Prod.fst).Nodup) (h : (k, v) ∈ l) : find k l = some v := by
  induction l with
  | nil => simp at h
  | cons e l ih =>
    rw [List.map_cons, List.nodup_cons] at hn
    rcases List.mem_cons.mp h with rfl | h
    · simp [find]
    · have he : e.1 ≠ k := by
        intro he
        exact hn.1 (List.mem_map.mpr ⟨(k, v), h, he.symm⟩)
      simp only [find, if_neg he]
      exact ih hn.2 h

theorem assign_of_find (h : find k l = some v) : assign k v l = l := by
  induction l with
  | nil => simp [find] at h
  | cons e l ih =>
    by_cases he : e.1 = k
    · simp only [find, if_pos he, Option.some.injEq] at h
      subst he; subst h
      simp [assign]
    · simp only [find, if_neg he] at h
      simp [assign, he, ih h]

theorem assign_assign : assign k v' (assign k v l) = assign k v' l := by
  induction l with
  | nil => simp [assign]
  | cons e l ih =>
    by_cases he : e.1 = k
    · simp [assign, he]
    · simp [assign, he, ih]

theorem filter_assign (h : find k l = none) :
    (assign k v l).filter (fun e => e.1 ≠ k) = l := by
  induction l with
  | nil => simp [assign]
  | cons e l ih =>
    rw [find] at h
    split at h
    · cases h
    · rename_i he
      rw [assign, if_neg he, List.filter_cons_of_pos (by simpa using he), ih h]

theorem filter_fst_eq (hn : (l.map Prod.fst).Nodup) :
    l.filter (fun e => e.1 = k) = (find k l).toList.map fun v => (k, v) := by
  induction l with
  | nil => rfl
  | cons e l ih =>
    obtain ⟨k', v⟩ := e
    rw [List.map_cons, List.nodup_cons] at hn
    by_cases he : k' = k
    · subst he
      have hnone : find k' l = none := find_eq_none_iff.mpr hn.1
      simp [find, ih hn.2, hnone]
    · simp [find, he, ih hn.2]

theorem find_filter : find k' (l.filter fun e => e.1 ≠ k) = if k' = k then none else find k' l := by
  induction l with
  | nil => simp [find]
  | cons e l ih =>
    by_cases he : e.1 = k
    · by_cases h : k' = k
      · subst h; simpa [he] using ih
      · have he' : e.1 ≠ k' := fun h' => h (h'.symm.trans he)
        simpa [he, h, find, he', Ne.symm h] using ih
    · by_cases h : k' = k
      · subst h; simpa [he, find] using ih
      · simp only [ne_eq, he, not_false_eq_true, decide_true, List.filter_cons_of_pos, find]
        split
        · simp
        · simpa [h] using ih

end Lists

/-- `{}` -/
def empty : Dict κ ν := ⟨[], List.nodup_nil⟩

instance : Inhabited (Dict κ ν) := ⟨empty⟩

/-- `d.get(k)` -/
def get? (d : Dict κ ν) (k : κ) : Option ν := find k d.items

/-- `d[k] = v` -/
def set (d : Dict κ ν) (k : κ) (v : ν) : Dict κ ν where
  items := assign k v d.items
  nodup := by
    rw [map_fst_assign]
    split
    · exact d.nodup
    · rename_i h
      exact List.nodup_append.mpr ⟨d.nodup, List.nodup_singleton k,
        fun a ha b hb hab => h (by simp_all)⟩

/-- `d.pop(k, None)`, for its effect. -/
def pop (d : Dict κ ν) (k : κ) : Dict κ ν where
  items := d.items.filter fun e => e.1 ≠ k
  nodup := (List.Sublist.map Prod.fst List.filter_sublist).nodup d.nodup

variable {d : Dict κ ν} {k k' : κ} {v : ν}

@[simp] theorem get?_empty : (empty : Dict κ ν).get? k = none := rfl

theorem get?_set : (d.set k v).get? k' = if k' = k then some v else d.get? k' := find_assign

@[simp] theorem get?_set_self : (d.set k v).get? k = some v := by simp [get?_set]

theorem get?_set_ne (h : k' ≠ k) : (d.set k v).get? k' = d.get? k' := by simp [get?_set, h]

theorem get?_pop : (d.pop k).get? k' = if k' = k then none else d.get? k' := find_filter

@[simp] theorem get?_pop_self : (d.pop k).get? k = none := by simp [get?_pop]

theorem get?_pop_ne (h : k' ≠ k) : (d.pop k).get? k' = d.get? k' := by simp [get?_pop, h]

theorem of_get?_pop (h : (d.pop k).get? k' = some v) : k' ≠ k ∧ d.get? k' = some v := by
  rw [get?_pop] at h
  split at h
  · cases h
  · exact ⟨‹_›, h⟩

theorem get?_foldl_pop {τ : Type*} {key : τ → κ} {xs : List τ} :
    (xs.foldl (fun d x => d.pop (key x)) d).get? k =
      if k ∈ xs.map key then none else d.get? k := by
  induction xs generalizing d with
  | nil => simp
  | cons x xs ih =>
    rw [List.foldl_cons, ih, get?_pop]
    by_cases hx : k = key x
    · simp [hx]
    · simp [hx]

theorem mem_items_iff : (k, v) ∈ d.items ↔ d.get? k = some v :=
  ⟨find_of_mem d.nodup, mem_of_find⟩

theorem filter_items (d : Dict κ ν) (k : κ) :
    d.items.filter (fun e => e.1 = k) = (d.get? k).toList.map fun v => (k, v) :=
  filter_fst_eq d.nodup

theorem set_of_get? (h : d.get? k = some v) : d.set k v = d := by
  ext1
  exact assign_of_find h

theorem pop_set (h : d.get? k = none) : (d.set k v).pop k = d := by
  ext1
  exact filter_assign h

@[simp] theorem set_set {w : ν} : (d.set k v).set k w = d.set k w := by
  ext1
  exact assign_assign

theorem mem_items_set {e : κ × ν} (h : e ∈ (d.set k v).items) : e = (k, v) ∨ e ∈ d.items := by
  obtain ⟨k', v'⟩ := e
  rw [mem_items_iff, get?_set] at h
  split at h
  · rename_i hk
    exact Or.inl (by rw [hk, Option.some.inj h])
  · exact Or.inr (mem_items_iff.mpr h)

end Dict
