import Mathlib.Algebra.BigOperators.Group.List.Basic
import Mathlib.Algebra.GroupWithZero.Nat
import Mathlib.Data.List.Count

/-! # Who holds an item

The members of a list each hold some items. How often an item is held is a sum
over the list, and replacing one member changes only its own share; an item that
is held once is held by exactly one member.
-/

namespace Custody

variable {τ α : Type*} [DecidableEq α] {holds : τ → List α} {ts : List τ} {t u : τ} {x : α} {i : ℕ}

/-- How often the members of a list hold an item. -/
def count (holds : τ → List α) (ts : List τ) (x : α) : ℕ :=
  (ts.map fun t => (holds t).count x).sum

/-- Member `i` of a list holds an item. -/
def Holder (holds : τ → List α) (ts : List τ) (x : α) (i : ℕ) : Prop :=
  ∃ t, ts[i]? = some t ∧ x ∈ holds t

@[simp] theorem count_nil : count holds [] x = 0 := rfl

@[simp] theorem count_cons : count holds (t :: ts) x = (holds t).count x + count holds ts x := by
  simp [count]

@[simp] theorem count_append {us : List τ} :
    count holds (ts ++ us) x = count holds ts x + count holds us x := by
  simp [count]

theorem count_set (h : ts[i]? = some t) :
    count holds (ts.set i u) x + (holds t).count x = count holds ts x + (holds u).count x := by
  induction ts generalizing i with
  | nil => cases h
  | cons v ts ih =>
    cases i with
    | zero =>
      obtain rfl : v = t := Option.some.inj h
      simp only [List.set_cons_zero, count_cons]
      omega
    | succ i =>
      have hi := ih h
      simp only [List.set_cons_succ, count_cons]
      omega

theorem count_eq_zero : count holds ts x = 0 ↔ ∀ t ∈ ts, x ∉ holds t := by
  induction ts with
  | nil => simp
  | cons t ts ih => simp [List.count_eq_zero, ih]

theorem not_holder_of_count (h : count holds ts x = 0) : ¬ Holder holds ts x i := by
  rintro ⟨t, ht, hx⟩
  exact count_eq_zero.mp h t (List.mem_of_getElem? ht) hx

theorem existsUnique_holder (h : count holds ts x = 1) : ∃! i, Holder holds ts x i := by
  induction ts with
  | nil => cases h
  | cons t ts ih =>
    rw [count_cons] at h
    rcases Nat.eq_zero_or_pos ((holds t).count x) with hz | hp
    · obtain ⟨i, hi, hu⟩ := ih (by omega)
      have ht : x ∉ holds t := List.count_eq_zero.mp hz
      refine ⟨i + 1, hi, ?_⟩
      rintro (_ | j) hj
      · obtain ⟨v, hv, hx⟩ := hj
        obtain rfl : t = v := Option.some.inj hv
        exact absurd hx ht
      · rw [hu j hj]
    · have hts : count holds ts x = 0 := by omega
      refine ⟨0, ⟨t, rfl, List.count_pos_iff.mp hp⟩, ?_⟩
      rintro (_ | j) hj
      · rfl
      · have hj : Holder holds ts x j := hj
        exact absurd hj (not_holder_of_count hts)

end Custody
