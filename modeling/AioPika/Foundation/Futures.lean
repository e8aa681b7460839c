import AioPika.Foundation.Members
import AioPika.Foundation.Runs

/-! # Futures of an event loop

Tasks end on their own. A gather waits for its children, and if it is to return
their exceptions it is done after all of them and has none of its own. What is
awaited through such gathers is done before they are.
-/

inductive Outcome where
  | returned
  | raised
  | cancelled
  deriving DecidableEq, Repr

inductive FutureKind (τ : Type) where
  /-- Something that ends on its own. -/
  | task (work : τ)
  /-- `gather(*children, return_exceptions=...)` -/
  | gather (children : List ℕ) (returnExceptions : Bool)
  deriving DecidableEq, Repr

structure Future (τ : Type) where
  kind : FutureKind τ
  outcome : Option Outcome
  deriving DecidableEq, Repr

namespace Future

open Transition

variable {τ : Type}

inductive Action (τ : Type) where
  /-- A task ends. -/
  | ended (i : ℕ) (outcome : Outcome)
  /-- A gather is done. -/
  | gathered (i : ℕ) (outcome : Outcome)
  /-- Somebody makes another future. -/
  | created (kind : FutureKind τ)

def Done (l : List (Future τ)) (i : ℕ) : Prop := ∃ f ∈ l[i]?, f.outcome.isSome = true

instance (l : List (Future τ)) : DecidablePred (Done l) := fun i =>
  inferInstanceAs (Decidable (∃ f ∈ l[i]?, f.outcome.isSome = true))

/-- A gather with these children may be done with this outcome: that of a child that fails, or
its own when all children are done. Nobody cancels a gather. -/
def Settles (l : List (Future τ)) (children : List ℕ) (returnExceptions : Bool)
    (outcome : Outcome) : Prop :=
  if outcome = .returned then
    ∀ j ∈ children, Done l j ∧
      (returnExceptions = true ∨ ∃ f ∈ l[j]?, f.outcome = some .returned)
  else returnExceptions = false ∧ ∃ j ∈ children, ∃ f ∈ l[j]?, f.outcome = some outcome

instance (l : List (Future τ)) (children : List ℕ) (returnExceptions : Bool) (outcome : Outcome) :
    Decidable (Settles l children returnExceptions outcome) := by
  unfold Settles
  infer_instance

def settle (outcome : Outcome) (f : Future τ) : Future τ :=
  { f with outcome := f.outcome.or (some outcome) }

def step (l : List (Future τ)) : Action τ → Option (List (Future τ))
  | .ended i outcome =>
    match l[i]? with
    | some ⟨.task _, none⟩ => some (l.modify i (settle outcome))
    | _ => none
  | .gathered i outcome =>
    match l[i]? with
    | some ⟨.gather children returnExceptions, none⟩ =>
      if Settles l children returnExceptions outcome then some (l.modify i (settle outcome))
      else none
    | _ => none
  | .created kind => some (l ++ [⟨kind, none⟩])

/-- `l'` is later than `l`: futures stay what they are, and stay done. -/
def Later (l l' : List (Future τ)) : Prop :=
  ∀ (i : ℕ) f, l[i]? = some f → ∃ f', l'[i]? = some f' ∧ f'.kind = f.kind ∧
    (f.outcome.isSome = true → f'.outcome = f.outcome)

/-- From `l` to `l'`, futures have been made that are not done. -/
def Made (l l' : List (Future τ)) : Prop :=
  ∃ made, l' = l ++ made ∧ ∀ f ∈ made, f.outcome = none

/-- Future `i` waits for future `k`, through gathers that return exceptions and were made after
there were `base` futures. -/
inductive Awaits (base : ℕ) (l : List (Future τ)) : ℕ → ℕ → Prop
  | refl (i : ℕ) : Awaits base l i i
  | child {i j k : ℕ} {children : List ℕ} {outcome : Option Outcome} (hb : base ≤ i)
      (hi : l[i]? = some ⟨.gather children true, outcome⟩) (hj : j ∈ children)
      (h : Awaits base l j k) : Awaits base l i k

/-- The gathers from `base` on that return exceptions are done after their children, and have no
exception. -/
def Joined (base : ℕ) (l : List (Future τ)) : Prop :=
  ∀ (i : ℕ) children outcome, base ≤ i →
    l[i]? = some ⟨.gather children true, some outcome⟩ →
    outcome = .returned ∧ ∀ j ∈ children, Done l j

variable {l l' l'' : List (Future τ)} {i j k base : ℕ} {a : Action τ}

section Later

theorem Later.refl (l : List (Future τ)) : Later l l := fun _ f hi => ⟨f, hi, rfl, fun _ => rfl⟩

theorem Later.trans (h : Later l l') (h' : Later l' l'') : Later l l'' := by
  intro i f hi
  obtain ⟨f', hi', hk', ho'⟩ := h i f hi
  obtain ⟨f'', hi'', hk'', ho''⟩ := h' i f' hi'
  refine ⟨f'', hi'', hk''.trans hk', fun hs => ?_⟩
  have he := ho' hs
  exact (ho'' (by rwa [he])).trans he

theorem later_append (l m : List (Future τ)) : Later l (l ++ m) := by
  intro i f hi
  have hlt : i < l.length := (List.getElem?_eq_some_iff.mp hi).1
  exact ⟨f, (List.getElem?_append_left hlt).trans hi, rfl, fun _ => rfl⟩

theorem later_settle (l : List (Future τ)) (i : ℕ) (outcome : Outcome) :
    Later l (l.modify i (settle outcome)) := by
  intro j f hj
  rw [List.getElem?_modify, hj]
  refine ⟨_, rfl, ?_, fun hs => ?_⟩
  · dsimp only [Option.map_some]
    split <;> rfl
  · dsimp only
    split
    · obtain ⟨o, ho⟩ := Option.isSome_iff_exists.mp hs
      simp [settle, ho]
    · rfl

theorem step_cases (h : step l a = some l') :
    (∃ i work outcome, l[i]? = some ⟨.task work, none⟩ ∧ l' = l.modify i (settle outcome)) ∨
    (∃ i children returnExceptions outcome,
      l[i]? = some ⟨.gather children returnExceptions, none⟩ ∧
      Settles l children returnExceptions outcome ∧ l' = l.modify i (settle outcome)) ∨
    ∃ kind, l' = l ++ [⟨kind, none⟩] := by
  cases a with
  | ended i outcome =>
    simp only [step] at h
    split at h
    · rename_i work hi
      obtain rfl := Option.some.inj h
      exact Or.inl ⟨i, work, outcome, hi, rfl⟩
    · cases h
  | gathered i outcome =>
    simp only [step] at h
    split at h
    · rename_i children returnExceptions hi
      split at h
      · rename_i hs
        obtain rfl := Option.some.inj h
        exact Or.inr (Or.inl ⟨i, children, returnExceptions, outcome, hi, hs, rfl⟩)
      · cases h
    · cases h
  | created kind =>
    obtain rfl := Option.some.inj h
    exact Or.inr (Or.inr ⟨kind, rfl⟩)

theorem later_step (h : step l a = some l') : Later l l' := by
  rcases step_cases h with ⟨i, _, outcome, -, rfl⟩ | ⟨i, _, _, outcome, -, -, rfl⟩ | ⟨kind, rfl⟩
  · exact later_settle l i outcome
  · exact later_settle l i outcome
  · exact later_append l _

theorem later_run {as : List (Action τ)} {ok : List (Future τ) → Action τ → Prop}
    (h : Run step ok l as l') : Later l l' := by
  apply h.invariant (I := Later l)
  · intro m a m' hm _ hst
    exact hm.trans (later_step hst)
  · exact Later.refl l

theorem Done.later (h : Done l i) (hl : Later l l') : Done l' i := by
  obtain ⟨f, hi, hs⟩ := h
  obtain ⟨f', hi', -, ho⟩ := hl i f hi
  exact ⟨f', hi', by rwa [ho hs]⟩

theorem Awaits.later (h : Awaits base l i k) (hl : Later l l') : Awaits base l' i k := by
  induction h with
  | refl i => exact .refl i
  | child hb hi hj _ ih =>
    obtain ⟨⟨kind, outcome⟩, hi', rfl, -⟩ := hl _ _ hi
    exact .child hb hi' hj ih

theorem Awaits.mono {base' : ℕ} (h : Awaits base l i k) (hb : base' ≤ base) :
    Awaits base' l i k := by
  induction h with
  | refl i => exact .refl i
  | child hi' hi hj _ ih => exact .child (Nat.le_trans hb hi') hi hj ih

end Later

section Made

theorem Made.refl (l : List (Future τ)) : Made l l := ⟨[], (List.append_nil l).symm, by simp⟩

theorem made_append (l : List (Future τ)) (kind : FutureKind τ) : Made l (l ++ [⟨kind, none⟩]) :=
  ⟨[⟨kind, none⟩], rfl, fun _ hf => by rw [List.mem_singleton.mp hf]⟩

theorem Made.trans (h : Made l l') (h' : Made l' l'') : Made l l'' := by
  obtain ⟨made, rfl, hm⟩ := h
  obtain ⟨made', rfl, hm'⟩ := h'
  refine ⟨made ++ made', List.append_assoc l made made', fun f hf => ?_⟩
  rcases List.mem_append.mp hf with hf | hf
  · exact hm f hf
  · exact hm' f hf

theorem Made.length_le (h : Made l l') : l.length ≤ l'.length := by
  obtain ⟨made, rfl, -⟩ := h
  rw [List.length_append]
  exact Nat.le_add_right _ _

theorem Made.later (h : Made l l') : Later l l' := by
  obtain ⟨made, rfl, -⟩ := h
  exact later_append l made

theorem Made.get {f : Future τ} (h : Made l l') (hi : l[i]? = some f) : l'[i]? = some f := by
  obtain ⟨made, rfl, -⟩ := h
  exact (List.getElem?_append_left (List.getElem?_eq_some_iff.mp hi).1).trans hi

theorem Made.joined (h : Made l l') : Joined l.length l' := by
  obtain ⟨made, rfl, hm⟩ := h
  intro i children outcome hb hi
  rw [List.getElem?_append_right hb] at hi
  cases hm _ (List.mem_of_getElem? hi)

end Made

section Joined

theorem Joined.step (h : Joined base l) (hs : Future.step l a = some l') : Joined base l' := by
  have hl := later_step hs
  intro i children outcome hb hi
  rcases step_cases hs with ⟨m, work, o, hm, rfl⟩ | ⟨m, cs, re, o, hm, hset, rfl⟩ | ⟨kind, rfl⟩
  · obtain ⟨f, hf, ⟨rfl, he⟩ | ⟨-, rfl⟩⟩ := Members.of_modify hi
    · obtain rfl := Option.some.inj (hm.symm.trans hf)
      cases he
    · obtain ⟨ho, hd⟩ := h i children outcome hb hf
      exact ⟨ho, fun j hj => (hd j hj).later hl⟩
  · obtain ⟨f, hf, ⟨rfl, he⟩ | ⟨-, rfl⟩⟩ := Members.of_modify hi
    · obtain rfl := Option.some.inj (hm.symm.trans hf)
      obtain ⟨⟨rfl, rfl⟩, rfl⟩ : (children = cs ∧ true = re) ∧ outcome = o := by
        simpa [settle] using he
      unfold Settles at hset
      split at hset
      · rename_i ho
        exact ⟨ho, fun j hj => ((hset j hj).1).later hl⟩
      · exact absurd hset.1 Bool.noConfusion
    · obtain ⟨ho, hd⟩ := h i children outcome hb hf
      exact ⟨ho, fun j hj => (hd j hj).later hl⟩
  · rcases Members.of_append hi with hi | ⟨-, he⟩
    · obtain ⟨ho, hd⟩ := h i children outcome hb hi
      exact ⟨ho, fun j hj => (hd j hj).later hl⟩
    · cases he

theorem Joined.run {as : List (Action τ)} {ok : List (Future τ) → Action τ → Prop}
    (h : Joined base l) (hr : Run Future.step ok l as l') : Joined base l' := by
  apply hr.invariant (I := Joined base) _ h
  intro m a m' hm _ hst
  exact hm.step hst

/-- What a future waits for is done before it. -/
theorem Awaits.done (h : Awaits base l i k) (hj : Joined base l) (hd : Done l i) : Done l k := by
  induction h with
  | refl i => exact hd
  | child hb hi hj' _ ih =>
    obtain ⟨f, hf, hs⟩ := hd
    obtain rfl := Option.some.inj (hi.symm.trans hf)
    obtain ⟨o, rfl⟩ := Option.isSome_iff_exists.mp hs
    exact ih ((hj _ _ _ hb hi).2 _ hj')

end Joined

end Future
