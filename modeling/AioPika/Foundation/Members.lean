import Mathlib.Data.List.Nodup
import Mathlib.Data.List.Perm.Subperm

/-! # Members of a list

A list of members of which one is replaced, or to which one is added: who is a
member afterwards, which properties some member keeps, and how many members have
a property.
-/

namespace Members

variable {τ : Type*} {ts : List τ} {t u : τ} {i j : ℕ}

theorem of_set (h : (ts.set i u)[j]? = some t) : j = i ∧ t = u ∨ j ≠ i ∧ ts[j]? = some t := by
  by_cases hj : i = j
  · subst hj
    have hlt : i < (ts.set i u).length := (List.getElem?_eq_some_iff.mp h).1
    rw [List.length_set] at hlt
    exact Or.inl ⟨rfl, Option.some.inj (h.symm.trans (List.getElem?_set_self hlt))⟩
  · exact Or.inr ⟨fun he => hj he.symm, (List.getElem?_set_ne hj).symm.trans h⟩

theorem of_append (h : (ts ++ [u])[j]? = some t) : ts[j]? = some t ∨ j = ts.length ∧ t = u := by
  rw [List.getElem?_append] at h
  split at h
  · exact Or.inl h
  · have hj := (List.getElem?_eq_some_iff.mp h).1
    rw [List.length_singleton] at hj
    have he : j - ts.length = 0 := by omega
    rw [he] at h
    exact Or.inr ⟨by omega, (Option.some.inj h).symm⟩

theorem get_append_ne (h : j ≠ ts.length) : (ts ++ [u])[j]? = ts[j]? := by
  rcases Nat.lt_or_gt_of_ne h with hj | hj
  · exact List.getElem?_append_left hj
  · rw [List.getElem?_eq_none (Nat.le_of_lt hj), List.getElem?_eq_none]
    rw [List.length_append, List.length_singleton]
    exact hj

theorem of_modify {f : τ → τ} (h : (ts.modify i f)[j]? = some t) :
    ∃ v, ts[j]? = some v ∧ (i = j ∧ t = f v ∨ i ≠ j ∧ t = v) := by
  rw [List.getElem?_modify] at h
  obtain ⟨v, hget, hv⟩ := Option.map_eq_some_iff.mp h
  refine ⟨v, hget, ?_⟩
  split at hv
  · exact Or.inl ⟨‹_›, hv.symm⟩
  · exact Or.inr ⟨‹_›, hv.symm⟩

theorem modify_append_singleton {f : τ → τ} :
    (ts ++ [t]).modify ts.length f = ts ++ [f t] := by
  induction ts with
  | nil => rfl
  | cons v ts ih => simp [ih]

variable {P : τ → Prop}

theorem exists_set (h : ∃ v ∈ ts, P v) (ht : ts[i]? = some t) (hu : P t → P u) :
    ∃ v ∈ ts.set i u, P v := by
  obtain ⟨v, hm, hv⟩ := h
  obtain ⟨j, hget⟩ := List.getElem?_of_mem hm
  by_cases hj : i = j
  · subst hj
    obtain rfl : t = v := Option.some.inj (ht.symm.trans hget)
    have hlt : i < ts.length := (List.getElem?_eq_some_iff.mp hget).1
    exact ⟨u, List.mem_of_getElem? (List.getElem?_set_self hlt), hu hv⟩
  · exact ⟨v, List.mem_of_getElem? ((List.getElem?_set_ne hj).trans hget), hv⟩

theorem exists_set_of_erase (h : ∃ v ∈ ts.eraseIdx i, P v) : ∃ v ∈ ts.set i u, P v := by
  obtain ⟨v, hm, hv⟩ := h
  obtain ⟨j, hj, hget⟩ := List.mem_eraseIdx_iff_getElem?.mp hm
  exact ⟨v, List.mem_of_getElem? ((List.getElem?_set_ne (Ne.symm hj)).trans hget), hv⟩

theorem exists_append {us : List τ} (h : ∃ v ∈ ts, P v) : ∃ v ∈ ts ++ us, P v := by
  obtain ⟨v, hm, hv⟩ := h
  exact ⟨v, List.mem_append_left _ hm, hv⟩

theorem exists_of_set (hu : ¬ P u) (h : ∃ v ∈ ts.set i u, P v) : ∃ v ∈ ts, P v := by
  obtain ⟨v, hm, hv⟩ := h
  rcases List.mem_or_eq_of_mem_set hm with hm | rfl
  · exact ⟨v, hm, hv⟩
  · exact absurd hv hu

theorem exists_of_append (hu : ¬ P u) (h : ∃ v ∈ ts ++ [u], P v) : ∃ v ∈ ts, P v := by
  obtain ⟨v, hm, hv⟩ := h
  rcases List.mem_append.mp hm with hm | hm
  · exact ⟨v, hm, hv⟩
  · obtain rfl := List.mem_singleton.mp hm
    exact absurd hv hu

theorem forall_modify {f : τ → τ} (h : ∀ v ∈ ts, P v) (hf : ∀ v ∈ ts[i]?, P v → P (f v)) :
    ∀ v ∈ ts.modify i f, P v := by
  intro v hm
  obtain ⟨j, hget⟩ := List.getElem?_of_mem hm
  obtain ⟨w, hw, ⟨rfl, rfl⟩ | ⟨-, rfl⟩⟩ := of_modify hget
  · exact hf w hw (h w (List.mem_of_getElem? hw))
  · exact h v (List.mem_of_getElem? hw)

theorem get_modify {f : τ → τ} (h : ∃ v ∈ ts[j]?, P v) (hf : ∀ v ∈ ts[i]?, P v → P (f v)) :
    ∃ v ∈ (ts.modify i f)[j]?, P v := by
  obtain ⟨v, hget, hv⟩ := h
  have hget : ts[j]? = some v := hget
  rw [List.getElem?_modify, hget]
  refine ⟨_, rfl, ?_⟩
  split
  · rename_i he
    subst he
    exact hf v hget hv
  · exact hv

theorem get_append {us : List τ} (h : ∃ v ∈ ts[j]?, P v) : ∃ v ∈ (ts ++ us)[j]?, P v := by
  obtain ⟨v, hget, hv⟩ := h
  have hlt : j < ts.length := (List.getElem?_eq_some_iff.mp hget).1
  exact ⟨v, (List.getElem?_append_left hlt).trans hget, hv⟩

theorem count_set [DecidableEq τ] {v : τ} (h : ts[i]? = some t) :
    (ts.set i u).count v + (if t = v then 1 else 0) = ts.count v + if u = v then 1 else 0 := by
  induction ts generalizing i with
  | nil => cases h
  | cons w ts ih =>
    cases i with
    | zero =>
      obtain rfl : w = t := Option.some.inj h
      simp only [List.set_cons_zero, List.count_cons, beq_iff_eq]
      omega
    | succ i =>
      have hi := ih h
      simp only [List.set_cons_succ, List.count_cons]
      omega

theorem count_append_singleton [DecidableEq τ] {v : τ} :
    (ts ++ [u]).count v = ts.count v + if u = v then 1 else 0 := by
  rw [List.count_append, List.count_singleton]
  simp

theorem countP_eq_length_filter_range {p : τ → Bool} :
    ts.countP p = ((List.range ts.length).filter fun i => ts[i]?.any p).length := by
  have hmap : (List.range ts.length).map (fun i => ts[i]?) = ts.map some := by
    apply List.ext_getElem
    · simp
    · intro i h₁ h₂
      have hi : i < ts.length := by simpa using h₁
      simp [hi]
  have hcount : ts.countP p = (ts.map some).countP (Option.any p) := by
    rw [List.countP_map]
    rfl
  rw [hcount, ← hmap, List.countP_map, List.countP_eq_length_filter]
  rfl

/-- Distinct places of members that have a property. -/
theorem length_le_countP {p : τ → Bool} {l : List ℕ} (hn : l.Nodup)
    (h : ∀ i ∈ l, ∃ t ∈ ts[i]?, p t = true) : l.length ≤ ts.countP p := by
  rw [countP_eq_length_filter_range]
  refine (List.subperm_of_subset hn ?_).length_le
  intro i hi
  obtain ⟨t, ht, hp⟩ := h i hi
  have ht : ts[i]? = some t := ht
  have hlt : i < ts.length := (List.getElem?_eq_some_iff.mp ht).1
  apply List.mem_filter.mpr
  constructor
  · exact List.mem_range.mpr hlt
  · simp [ht, hp]

end Members
