import AioPika.Foundation.Dict
import Mathlib.Data.Set.Insert

/-! # Dictionaries that mirror a set

A dictionary may be kept beside a set, so that each entry stands for one
element. Assigning and deleting keep the two in step exactly when the entry
that is overwritten or deleted stands for the element concerned, or for an
element that is also recorded under another key.
-/

namespace Dict

variable {κ ν ι : Type*} [DecidableEq κ]

/-- The elements that the entries of a dictionary stand for. -/
def image (ident : κ → ν → ι) (d : Dict κ ν) : Set ι :=
  {i | ∃ k v, d.get? k = some v ∧ ident k v = i}

/-- An element is recorded under a key other than `k`. -/
def Elsewhere (ident : κ → ν → ι) (d : Dict κ ν) (k : κ) (i : ι) : Prop :=
  ∃ k' v, k' ≠ k ∧ d.get? k' = some v ∧ ident k' v = i

variable {ident : κ → ν → ι} {d : Dict κ ν} {k : κ} {v : ν} {i : ι}

theorem mem_image_iff : i ∈ d.image ident ↔
    d.Elsewhere ident k i ∨ ∃ v, d.get? k = some v ∧ ident k v = i := by
  constructor
  · rintro ⟨k', v', hk, hi⟩
    by_cases h : k' = k
    · subst h; exact Or.inr ⟨v', hk, hi⟩
    · exact Or.inl ⟨k', v', h, hk, hi⟩
  · rintro (⟨k', v', -, hk, hi⟩ | ⟨v', hk, hi⟩)
    · exact ⟨k', v', hk, hi⟩
    · exact ⟨k, v', hk, hi⟩

theorem elsewhere_set : (d.set k v).Elsewhere ident k i ↔ d.Elsewhere ident k i := by
  constructor <;> rintro ⟨k', v', hne, hk, hi⟩
  · exact ⟨k', v', hne, by rwa [get?_set_ne hne] at hk, hi⟩
  · exact ⟨k', v', hne, by rwa [get?_set_ne hne], hi⟩

theorem elsewhere_pop : (d.pop k).Elsewhere ident k i ↔ d.Elsewhere ident k i := by
  constructor <;> rintro ⟨k', v', hne, hk, hi⟩
  · exact ⟨k', v', hne, by rwa [get?_pop_ne hne] at hk, hi⟩
  · exact ⟨k', v', hne, by rwa [get?_pop_ne hne], hi⟩

theorem mem_image_set : i ∈ (d.set k v).image ident ↔ ident k v = i ∨ d.Elsewhere ident k i := by
  rw [mem_image_iff (k := k), elsewhere_set]
  simp [or_comm]

theorem mem_image_pop : i ∈ (d.pop k).image ident ↔ d.Elsewhere ident k i := by
  rw [mem_image_iff (k := k), elsewhere_pop]
  simp

/-- Assigning adds one element, and only that, unless it overwrites the only record of
another. -/
theorem image_set_iff :
    (d.set k v).image ident = insert (ident k v) (d.image ident) ↔
      ∀ v₀, d.get? k = some v₀ → ident k v₀ ≠ ident k v →
        d.Elsewhere ident k (ident k v₀) := by
  constructor
  · intro h v₀ hv hne
    have hm : ident k v₀ ∈ (d.set k v).image ident := by
      rw [h]; exact Set.mem_insert_of_mem _ ⟨k, v₀, hv, rfl⟩
    exact (mem_image_set.mp hm).resolve_left (Ne.symm hne)
  · intro h
    ext i
    rw [mem_image_set, Set.mem_insert_iff, mem_image_iff (k := k), eq_comm]
    constructor
    · rintro (hi | hi)
      · exact Or.inl hi
      · exact Or.inr (Or.inl hi)
    · rintro (hi | hi | ⟨v₀, hv, rfl⟩)
      · exact Or.inl hi
      · exact Or.inr hi
      · by_cases hne : ident k v₀ = ident k v
        · exact Or.inl hne
        · exact Or.inr (h v₀ hv hne)

/-- Deleting a key removes one element, and only that, unless the element is also recorded
under another key or the key held the only record of another element. -/
theorem image_pop_iff :
    (d.pop k).image ident = d.image ident \ {i} ↔
      (∀ v₀, d.get? k = some v₀ → ident k v₀ ≠ i → d.Elsewhere ident k (ident k v₀)) ∧
        ¬ d.Elsewhere ident k i := by
  constructor
  · intro h
    constructor
    · intro v₀ hv hne
      have hm : ident k v₀ ∈ (d.pop k).image ident := by
        rw [h]; exact ⟨⟨k, v₀, hv, rfl⟩, hne⟩
      exact mem_image_pop.mp hm
    · intro hi
      have hm : i ∈ d.image ident \ {i} := by
        rw [← h]; exact mem_image_pop.mpr hi
      exact hm.2 rfl
  · rintro ⟨h, hi⟩
    ext j
    rw [mem_image_pop, Set.mem_sdiff, Set.mem_singleton_iff, mem_image_iff (k := k)]
    constructor
    · intro hj
      exact ⟨Or.inl hj, fun he => hi (he ▸ hj)⟩
    · rintro ⟨hj | ⟨v₀, hv, rfl⟩, hne⟩
      · exact hj
      · exact h v₀ hv hne

end Dict
