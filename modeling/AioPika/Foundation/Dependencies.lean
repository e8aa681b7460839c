import Mathlib.Data.Set.Insert

/-! # Sequences that respect dependencies

Each element of a sequence provides some items and needs others. The sequence
respects the dependencies if every item is provided before the first element
that needs it. A sequence may also end early, at the first element that lacks
an item it checks for. For a sequence made of blocks it is enough to look at
each block with what the earlier blocks provide.
-/

namespace Dependencies

variable {α β ι : Type*} {checks provides needs : α → List ι} {D E : Set ι} {l l' : List α}
  {a : α}

/-- Every item that an element needs is in `D`, or is provided by an earlier element. -/
def Respects (provides needs : α → List ι) : Set ι → List α → Prop
  | _, [] => True
  | D, a :: l => (∀ i ∈ needs a, i ∈ D) ∧ Respects provides needs ({i | i ∈ provides a} ∪ D) l

/-- The dependencies are respected up to the first element that lacks an item it checks for. -/
def RespectsUntil (checks provides needs : α → List ι) : Set ι → List α → Prop
  | _, [] => True
  | D, a :: l => (∀ i ∈ checks a, i ∈ D) →
      (∀ i ∈ needs a, i ∈ D) ∧ RespectsUntil checks provides needs ({i | i ∈ provides a} ∪ D) l

def provided (provides : α → List ι) (l : List α) : Set ι := {i | ∃ a ∈ l, i ∈ provides a}

theorem provided_nil : provided provides ([] : List α) = ∅ := by
  ext i
  simp [provided]

theorem provided_cons :
    provided provides (a :: l) = {i | i ∈ provides a} ∪ provided provides l := by
  ext i
  simp [provided]

theorem provided_append :
    provided provides (l ++ l') = provided provides l ∪ provided provides l' := by
  ext i
  simp [provided, or_and_right, exists_or]

theorem Respects.mono (hDE : D ⊆ E) (h : Respects provides needs D l) :
    Respects provides needs E l := by
  induction l generalizing D E with
  | nil => trivial
  | cons a l ih =>
    obtain ⟨ha, hl⟩ := h
    exact ⟨fun i hi => hDE (ha i hi), ih (Set.union_subset_union_right _ hDE) hl⟩

theorem respects_append : Respects provides needs D (l ++ l') ↔
    Respects provides needs D l ∧ Respects provides needs (provided provides l ∪ D) l' := by
  induction l generalizing D with
  | nil => simp [Respects, provided_nil]
  | cons a l ih =>
    have hset : provided provides (a :: l) ∪ D =
        provided provides l ∪ ({i | i ∈ provides a} ∪ D) := by
      rw [provided_cons, Set.union_comm {i | i ∈ provides a}, Set.union_assoc]
    rw [List.cons_append, Respects, ih, Respects, and_assoc, hset]

/-- A sequence of blocks respects the dependencies exactly when each block does, given what
the earlier blocks provide. -/
theorem respects_flatMap {f : β → List α} {bs : List β} :
    Respects provides needs D (bs.flatMap f) ↔ ∀ pre b post, bs = pre ++ b :: post →
      Respects provides needs (provided provides (pre.flatMap f) ∪ D) (f b) := by
  induction bs generalizing D with
  | nil => simp [Respects]
  | cons b bs ih =>
    rw [List.flatMap_cons, respects_append, ih]
    constructor
    · rintro ⟨hb, hbs⟩ pre b' post h
      cases pre with
      | nil =>
        obtain ⟨rfl, rfl⟩ := List.cons.inj h
        simpa [provided_nil] using hb
      | cons b'' pre =>
        obtain ⟨rfl, htail⟩ := List.cons.inj h
        apply (hbs pre b' post htail).mono
        rw [List.flatMap_cons, provided_append, ← Set.union_assoc, Set.union_comm (provided _ _)]
    · intro h
      constructor
      · simpa [provided_nil] using h [] b bs rfl
      · intro pre b' post hbs
        apply (h (b :: pre) b' post (by rw [hbs]; rfl)).mono
        rw [List.flatMap_cons, provided_append, ← Set.union_assoc, Set.union_comm (provided _ _)]

theorem respects_of_needs (h : ∀ a ∈ l, ∀ i ∈ needs a, i ∈ D) : Respects provides needs D l := by
  induction l generalizing D with
  | nil => trivial
  | cons a l ih =>
    constructor
    · exact h a List.mem_cons_self
    · apply ih
      intro b hb i hi
      exact Set.mem_union_right _ (h b (List.mem_cons_of_mem _ hb) i hi)

theorem respectsUntil_append : RespectsUntil checks provides needs D (l ++ l') ↔
    RespectsUntil checks provides needs D l ∧ (Respects provides checks D l →
      RespectsUntil checks provides needs (provided provides l ∪ D) l') := by
  induction l generalizing D with
  | nil => simp [Respects, RespectsUntil, provided_nil]
  | cons a l ih =>
    have hset : provided provides (a :: l) ∪ D =
        provided provides l ∪ ({i | i ∈ provides a} ∪ D) := by
      rw [provided_cons, Set.union_comm {i | i ∈ provides a}, Set.union_assoc]
    rw [List.cons_append, RespectsUntil, ih, RespectsUntil, Respects, hset]
    constructor
    · intro h
      exact ⟨fun hc => ⟨(h hc).1, (h hc).2.1⟩, fun hl => (h hl.1).2.2 hl.2⟩
    · rintro ⟨h, h'⟩ hc
      exact ⟨(h hc).1, (h hc).2, fun hl => h' ⟨hc, hl⟩⟩

/-- A sequence of blocks respects the dependencies until it ends exactly when each block does
that the sequence gets to. -/
theorem respectsUntil_flatMap {f : β → List α} {bs : List β} :
    RespectsUntil checks provides needs D (bs.flatMap f) ↔ ∀ pre b post, bs = pre ++ b :: post →
      Respects provides checks D (pre.flatMap f) →
        RespectsUntil checks provides needs (provided provides (pre.flatMap f) ∪ D) (f b) := by
  induction bs generalizing D with
  | nil => simp [RespectsUntil]
  | cons b bs ih =>
    have hset : ∀ pre : List β, provided provides ((b :: pre).flatMap f) ∪ D =
        provided provides (pre.flatMap f) ∪ (provided provides (f b) ∪ D) := by
      intro pre
      rw [List.flatMap_cons, provided_append, Set.union_comm (provided _ (f b)), Set.union_assoc]
    rw [List.flatMap_cons, respectsUntil_append, ih]
    constructor
    · rintro ⟨hb, hbs⟩ pre b' post h hpre
      cases pre with
      | nil =>
        obtain ⟨rfl, rfl⟩ := List.cons.inj h
        simpa [provided_nil] using hb
      | cons b'' pre =>
        obtain ⟨rfl, htail⟩ := List.cons.inj h
        rw [hset]
        rw [List.flatMap_cons, respects_append] at hpre
        exact hbs hpre.1 pre b' post htail hpre.2
    · intro h
      constructor
      · simpa [provided_nil] using h [] b bs rfl trivial
      · intro hb pre b' post hbs hpre
        rw [← hset]
        apply h (b :: pre) b' post (by rw [hbs]; rfl)
        rw [List.flatMap_cons, respects_append]
        exact ⟨hb, hpre⟩

theorem respectsUntil_of_static (hc : ∀ a ∈ l, checks a = []) (hp : ∀ a ∈ l, provides a = []) :
    RespectsUntil checks provides needs D l ↔ ∀ a ∈ l, ∀ i ∈ needs a, i ∈ D := by
  induction l with
  | nil => simp [RespectsUntil]
  | cons a l ih =>
    have hset : {i | i ∈ provides a} ∪ D = D := by simp [hp a List.mem_cons_self]
    have ih := ih (fun a ha => hc a (List.mem_cons_of_mem _ ha))
      (fun a ha => hp a (List.mem_cons_of_mem _ ha))
    rw [RespectsUntil, hc a List.mem_cons_self, hset, ih]
    simp

end Dependencies
