import AioPika.Foundation.Custody
import AioPika.Foundation.Dict

/-! # Items held under the keys of a dictionary

The values of a dictionary each hold some items. Assigning a value changes the
share of its key only, and taking a key out loses no more than its share.
-/

namespace Custody

variable {κ ν α : Type*} [DecidableEq κ] [DecidableEq α]

/-- How often the values of a dictionary hold an item. -/
def stock (holds : ν → List α) (d : Dict κ ν) (x : α) : ℕ :=
  count (fun e : κ × ν => holds e.2) d.items x

variable {holds : ν → List α} {d : Dict κ ν} {k : κ} {v : ν} {x : α} {l : List (κ × ν)}

omit [DecidableEq κ] in
@[simp] theorem stock_empty : stock holds (Dict.empty : Dict κ ν) x = 0 := rfl

theorem count_assign {w : ν} (h : Dict.find k l = some v) :
    count (fun e : κ × ν => holds e.2) (Dict.assign k w l) x + (holds v).count x =
      count (fun e : κ × ν => holds e.2) l x + (holds w).count x := by
  induction l with
  | nil => cases h
  | cons e l ih =>
    by_cases he : e.1 = k
    · have hv : e.2 = v := by simpa [Dict.find, he] using h
      simp only [Dict.assign, if_pos he, count_cons, hv]
      omega
    · have hl : Dict.find k l = some v := by simpa [Dict.find, he] using h
      have hi := ih hl
      simp only [Dict.assign, if_neg he, count_cons]
      omega

theorem count_assign_new {w : ν} (h : Dict.find k l = none) :
    count (fun e : κ × ν => holds e.2) (Dict.assign k w l) x =
      count (fun e : κ × ν => holds e.2) l x + (holds w).count x := by
  induction l with
  | nil => simp [Dict.assign]
  | cons e l ih =>
    by_cases he : e.1 = k
    · simp [Dict.find, he] at h
    · have hl : Dict.find k l = none := by simpa [Dict.find, he] using h
      simp only [Dict.assign, if_neg he, count_cons, ih hl]
      omega

theorem count_filter_fst (hn : (l.map Prod.fst).Nodup) (h : Dict.find k l = some v) :
    count (fun e : κ × ν => holds e.2) (l.filter fun e => e.1 ≠ k) x + (holds v).count x =
      count (fun e : κ × ν => holds e.2) l x := by
  induction l with
  | nil => cases h
  | cons e l ih =>
    obtain ⟨hmem, hn⟩ := List.nodup_cons.mp hn
    by_cases he : e.1 = k
    · subst he
      have hv : e.2 = v := by simpa [Dict.find] using h
      have hkeep : (l.filter fun e' => e'.1 ≠ e.1) = l := by
        rw [List.filter_eq_self]
        intro e' he'
        have hne : e'.1 ≠ e.1 := fun heq => hmem (List.mem_map.mpr ⟨e', he', heq⟩)
        simpa using hne
      simp only [ne_eq, not_true_eq_false, decide_false, Bool.false_eq_true, not_false_eq_true,
        List.filter_cons_of_neg, count_cons, hv] at hkeep ⊢
      rw [hkeep]
      omega
    · have hl : Dict.find k l = some v := by simpa [Dict.find, he] using h
      have hi := ih hn hl
      rw [List.filter_cons_of_pos (by simpa using he), count_cons, count_cons]
      omega

section Shares

variable (holds) (x)

theorem stock_pop (h : d.get? k = some v) :
    stock holds (d.pop k) x + (holds v).count x = stock holds d x :=
  count_filter_fst d.nodup h

theorem stock_set (w : ν) (h : d.get? k = some v) :
    stock holds (d.set k w) x + (holds v).count x = stock holds d x + (holds w).count x :=
  count_assign h

theorem stock_set_new (w : ν) (h : d.get? k = none) :
    stock holds (d.set k w) x = stock holds d x + (holds w).count x :=
  count_assign_new h

end Shares

omit [DecidableEq κ]

theorem count_eraseIdx {τ : Type*} (holds : τ → List α) (x : α) {ts : List τ} {t : τ} {n : ℕ}
    (h : ts[n]? = some t) :
    count holds (ts.eraseIdx n) x + (holds t).count x = count holds ts x := by
  induction ts generalizing n with
  | nil => cases h
  | cons u ts ih =>
    cases n with
    | zero =>
      obtain rfl : u = t := Option.some.inj h
      rw [List.eraseIdx_cons_zero, count_cons, Nat.add_comm]
    | succ n =>
      have hi := ih h
      rw [List.eraseIdx_cons_succ, count_cons, count_cons]
      omega

theorem count_flatMap {τ : Type*} {holds : τ → List α} {ts : List τ} :
    (ts.flatMap holds).count x = count holds ts x := by
  induction ts with
  | nil => rfl
  | cons t ts ih => rw [List.flatMap_cons, List.count_append, ih, count_cons]

theorem count_map_le {τ : Type*} {holds : τ → List α} {ts : List τ} {f : τ → τ}
    (h : ∀ t, (holds t).count x ≤ (holds (f t)).count x) :
    count holds ts x ≤ count holds (ts.map f) x := by
  induction ts with
  | nil => exact Nat.le_refl _
  | cons t ts ih =>
    have ht := h t
    rw [List.map_cons, count_cons, count_cons]
    omega

theorem count_map {τ : Type*} {f : τ → α} {ts : List τ} :
    (ts.map f).count x = count (fun t => [f t]) ts x := by
  induction ts with
  | nil => rfl
  | cons t ts ih => rw [List.map_cons, List.count_cons, ih, count_cons, List.count_singleton,
      Nat.add_comm]

theorem count_filter_add {τ : Type*} (holds : τ → List α) (p : τ → Prop) [DecidablePred p]
    (ts : List τ) : count holds (ts.filter fun t => p t) x +
      count holds (ts.filter fun t => ¬ p t) x = count holds ts x := by
  induction ts with
  | nil => rfl
  | cons t ts ih =>
    by_cases ht : p t
    · rw [List.filter_cons_of_pos (by simpa using ht), List.filter_cons_of_neg (by simpa using ht),
        count_cons, count_cons]
      omega
    · rw [List.filter_cons_of_neg (by simpa using ht), List.filter_cons_of_pos (by simpa using ht),
        count_cons, count_cons]
      omega

theorem count_if {τ : Type*} (p : τ → Prop) [DecidablePred p] (f : τ → α) {ts : List τ} :
    count (fun t => if p t then [f t] else []) ts x =
      (ts.filter fun t => p t ∧ f t = x).length := by
  induction ts with
  | nil => rfl
  | cons t ts ih =>
    rw [count_cons, ih, List.filter_cons]
    by_cases hp : p t
    · by_cases hf : f t = x
      · simp [hp, hf, Nat.add_comm]
      · simp [hp, hf]
    · simp [hp]

/-- Members with distinct keys are no more than the members of a list that has their keys. -/
theorem length_le_of_keys {τ ρ γ : Type*} {ts : List τ} {us : List ρ} (f : τ → γ) (g : ρ → γ)
    (hn : (ts.map f).Nodup) (h : ∀ t ∈ ts, ∃ u ∈ us, g u = f t) : ts.length ≤ us.length := by
  have hsub : ts.map f ⊆ us.map g := by
    intro k hk
    obtain ⟨t, ht, rfl⟩ := List.mem_map.mp hk
    obtain ⟨u, hu, hg⟩ := h t ht
    exact List.mem_map.mpr ⟨u, hu, hg⟩
  simpa using (List.subperm_of_subset hn hsub).length_le

theorem count_filter_le {τ : Type*} {holds : τ → List α} {ts : List τ} {p : τ → Bool} :
    count holds (ts.filter p) x ≤ count holds ts x := by
  induction ts with
  | nil => exact Nat.le_refl _
  | cons t ts ih =>
    rw [List.filter_cons]
    split
    · simp only [count_cons]
      omega
    · simp only [count_cons]
      omega

theorem count_le_add {τ : Type*} {holds first second : τ → List α} {ts : List τ}
    (h : ∀ t, (holds t).count x ≤ (first t).count x + (second t).count x) :
    count holds ts x ≤ count first ts x + count second ts x := by
  induction ts with
  | nil => exact Nat.le_refl _
  | cons t ts ih =>
    have ht := h t
    simp only [count_cons]
    omega

theorem count_le_of_mem {τ : Type*} {holds : τ → List α} {ts : List τ} {t : τ} (h : t ∈ ts) :
    (holds t).count x ≤ count holds ts x := by
  obtain ⟨us, vs, rfl⟩ := List.append_of_mem h
  rw [count_append, count_cons]
  omega

theorem holder_unique {τ : Type*} {holds : τ → List α} {ts : List τ} {i j : ℕ}
    (h : count holds ts x ≤ 1) (hi : Holder holds ts x i) (hj : Holder holds ts x j) : i = j := by
  have hne : count holds ts x ≠ 0 := fun hz => not_holder_of_count hz hi
  obtain ⟨k, -, hk⟩ := existsUnique_holder (by omega : count holds ts x = 1)
  exact (hk i hi).trans (hk j hj).symm

variable [DecidableEq κ]

theorem stock_pop_le (holds : ν → List α) (d : Dict κ ν) (k : κ) (x : α) :
    stock holds (d.pop k) x ≤ stock holds d x :=
  count_filter_le

end Custody
