import Mathlib.Data.Set.Lattice
import Mathlib.Order.CompletePartialOrder
import AioPika.Foundation.Members
import AioPika.Foundation.Runs
import AioPika.Tools.Contents

/-! # Collections side by side

Several collections share one memory, and a copy is one more. Each has two sets of
its own, so that they are together what their contents are one by one.
-/

namespace AioPika.CallbackCollection

open Coroutine Transition

structure System (C S : Type) where
  memory : Memory (SetObject C)
  collections : List (CallbackCollection S)

inductive Action (C S : Type) where
  | create (sender : S)
  | call (i : ℕ) (op : Op C)
  | operator (i : ℕ) (op : Operator C)
  /-- The copy is the last collection from then on. -/
  | copy (i : ℕ) (o : IterationOrder C)

variable {C S : Type}

def System.empty : System C S := ⟨⟨fun _ => ⟨.set, ∅⟩, 0⟩, []⟩

namespace System

/-- Run a method of collection `i`, to its end. -/
def run {α : Type} (s : System C S) (i : ℕ) (method : Method C S α) :
    Option (Except (Stop (CallbackError C)) α × System C S) :=
  s.collections[i]?.map fun self =>
    let r := method ⟨s.memory, self⟩
    (outcome r, ⟨(final r).memory, s.collections.set i (final r).self⟩)

def contents (s : System C S) : List (Contents C) :=
  s.collections.map fun self => Store.contents ⟨s.memory, self⟩

def addresses (s : System C S) : Set ℕ :=
  {a | ∃ self ∈ s.collections, a ∈ self.addresses}

end System

variable [DecidableEq C] (callable : C → Bool)

def step (s : System C S) : Action C S → Option (System C S)
  | .create sender =>
    let created := init s.memory sender
    some ⟨created.memory, s.collections ++ [created.self]⟩
  | .call i op => (s.run i (op.run callable)).map Prod.snd
  | .operator i op => (s.run i (op.run callable)).map Prod.snd
  | .copy i o =>
    (s.run i (copy callable o)).map fun
      | (.ok copied, t) => { t with collections := t.collections ++ [copied] }
      | (.error _, t) => t

/-- Each collection has two sets of its own, and nobody holds its lock. -/
structure Sound (s : System C S) : Prop where
  represents : ∀ self ∈ s.collections, Represents callable ⟨s.memory, ∅, self.sender, false⟩
    ⟨s.memory, self⟩ (Store.contents ⟨s.memory, self⟩)
  disjoint : ∀ {i j : ℕ} {self other : CallbackCollection S}, i ≠ j →
    s.collections[i]? = some self → s.collections[j]? = some other →
    Disjoint self.addresses other.addresses

variable {callable} {s t : System C S} {i j : ℕ} {self other : CallbackCollection S}
  {c : Contents C} {F : Frame C S}

section Separation

/-- The addresses of the other collections. -/
def System.foreign (s : System C S) (i : ℕ) : Set ℕ :=
  {a | ∃ j other, j ≠ i ∧ s.collections[j]? = some other ∧ a ∈ other.addresses}

theorem Represents.alone {u : Store C S} (h : Represents callable F u c) (hF : F.locked = false) :
    Represents callable ⟨u.memory, ∅, u.self.sender, false⟩ u u.contents := by
  rw [h.contents]
  exact { h with
    callbacks_notMem := fun hm => hm.elim
    weakCallbacks_notMem := fun hm => hm.elim
    agree := ⟨fun _ ha => ha.elim, fun _ ha => ha.elim⟩
    sender := rfl
    locked := h.locked.trans hF }

theorem Represents.disjoint {u : Store C S} (h : Represents callable F u c) {A : Set ℕ}
    (hA : A ⊆ F.foreign) : Disjoint u.self.addresses A := by
  apply Set.disjoint_left.mpr
  rintro a (rfl | rfl) hm
  · exact h.callbacks_notMem (hA hm)
  · exact h.weakCallbacks_notMem (hA hm)

theorem Sound.below (h : Sound callable s) {a : ℕ} (ha : a ∈ s.addresses) : a < s.memory.next := by
  obtain ⟨self, hm, rfl | rfl⟩ := ha
  · exact (h.represents self hm).callbacks_lt
  · exact (h.represents self hm).weakCallbacks_lt

omit [DecidableEq C] in
theorem foreign_subset : s.foreign i ⊆ s.addresses := by
  rintro a ⟨j, other, -, hj, ha⟩
  exact ⟨other, List.mem_of_getElem? hj, ha⟩

theorem Sound.agree (h : Sound callable s) {A : Set ℕ} (hA : A ⊆ s.addresses) :
    Memory.Agree A s.memory s.memory :=
  ⟨fun _ ha => h.below (hA ha), fun _ _ => rfl⟩

theorem Sound.focus (h : Sound callable s) (hi : s.collections[i]? = some self) :
    Represents callable ⟨s.memory, s.foreign i, self.sender, false⟩ ⟨s.memory, self⟩
      (Store.contents ⟨s.memory, self⟩) := by
  have hr := h.represents self (List.mem_of_getElem? hi)
  have hnot {a : ℕ} (ha : a ∈ self.addresses) : a ∉ s.foreign i := by
    rintro ⟨j, other, hne, hj, ho⟩
    exact Set.disjoint_left.mp (h.disjoint hne.symm hi hj) ha ho
  exact { hr with
    callbacks_notMem := hnot (Or.inl rfl)
    weakCallbacks_notMem := hnot (Or.inr rfl)
    agree := h.agree foreign_subset }

theorem Sound.keep (h : Sound callable s) (hm : self ∈ s.collections) {m : Memory (SetObject C)}
    {A : Set ℕ} (hagree : Memory.Agree A s.memory m) (hA : self.addresses ⊆ A) :
    Represents callable ⟨m, ∅, self.sender, false⟩ ⟨m, self⟩ (Store.contents ⟨m, self⟩) ∧
      Store.contents ⟨m, self⟩ = Store.contents ⟨s.memory, self⟩ := by
  have hr := (h.represents self hm).of_agree (m := m) (by
    rw [Set.empty_union]
    exact hagree.subset hA)
  exact ⟨hr.alone rfl, hr.contents⟩

theorem Sound.set (h : Sound callable s) (hi : s.collections[i]? = some self) {u : Store C S}
    (hu : Represents callable ⟨s.memory, s.foreign i, self.sender, false⟩ u c) :
    Sound callable ⟨u.memory, s.collections.set i u.self⟩ ∧
      System.contents ⟨u.memory, s.collections.set i u.self⟩ = s.contents.set i c := by
  have hother {j : ℕ} {other : CallbackCollection S} (hne : j ≠ i)
      (hj : s.collections[j]? = some other) : other.addresses ⊆ s.foreign i :=
    fun a ha => ⟨j, other, hne, hj, ha⟩
  have hlt : i < s.collections.length := (List.getElem?_eq_some_iff.mp hi).1
  constructor
  · constructor
    · intro new hm
      obtain ⟨j, hj⟩ := List.getElem?_of_mem hm
      rcases Members.of_set hj with ⟨-, rfl⟩ | ⟨hne, hj⟩
      · exact hu.alone rfl
      · exact (h.keep (List.mem_of_getElem? hj) hu.agree (hother hne hj)).1
    · intro j k x y hne hj hk
      rcases Members.of_set hj with ⟨rfl, rfl⟩ | ⟨hji, hj'⟩
      · rcases Members.of_set hk with ⟨rfl, -⟩ | ⟨hki, hk'⟩
        · exact absurd rfl hne
        · exact hu.disjoint (hother hki hk')
      · rcases Members.of_set hk with ⟨rfl, rfl⟩ | ⟨-, hk'⟩
        · exact (hu.disjoint (hother hji hj')).symm
        · exact h.disjoint hne hj' hk'
  · apply List.ext_getElem?
    intro j
    unfold System.contents
    rw [List.getElem?_map]
    by_cases hij : i = j
    · subst hij
      rw [List.getElem?_set_self hlt, List.getElem?_set_self (by rwa [List.length_map])]
      exact congrArg some hu.contents
    · rw [List.getElem?_set_ne hij, List.getElem?_set_ne hij, List.getElem?_map]
      cases hj : s.collections[j]? with
      | none => rfl
      | some other =>
        have hsub := hother (Ne.symm hij) hj
        exact congrArg some (h.keep (List.mem_of_getElem? hj) hu.agree hsub).2

theorem Sound.append (h : Sound callable s) {u : Store C S} {sender : S}
    (hu : Represents callable ⟨s.memory, s.addresses, sender, false⟩ u c) :
    Sound callable ⟨u.memory, s.collections ++ [u.self]⟩ ∧
      System.contents ⟨u.memory, s.collections ++ [u.self]⟩ = s.contents ++ [c] := by
  have hold {self : CallbackCollection S} (hm : self ∈ s.collections) :
      self.addresses ⊆ s.addresses := fun a ha => ⟨self, hm, ha⟩
  constructor
  · constructor
    · intro self hm
      rcases List.mem_append.mp hm with hm | hm
      · exact (h.keep hm hu.agree (hold hm)).1
      · obtain rfl := List.mem_singleton.mp hm
        exact hu.alone rfl
    · intro j k x y hne hj hk
      rcases Members.of_append hj with hj | ⟨hjl, rfl⟩
      · rcases Members.of_append hk with hk | ⟨-, rfl⟩
        · exact h.disjoint hne hj hk
        · exact (hu.disjoint (hold (List.mem_of_getElem? hj))).symm
      · rcases Members.of_append hk with hk | ⟨hkl, -⟩
        · exact hu.disjoint (hold (List.mem_of_getElem? hk))
        · exact absurd (hjl.trans hkl.symm) hne
  · unfold System.contents
    rw [List.map_append, List.map_singleton]
    congr 1
    · apply List.map_congr_left
      intro self hm
      exact (h.keep hm hu.agree (hold hm)).2
    · exact congrArg (fun c => [c]) hu.contents

end Separation

section Values

variable (callable) in
/-- The same steps on the contents alone. -/
def stepContents (l : List (Contents C)) : Action C S → Option (List (Contents C))
  | .create _ => some (l ++ [.empty])
  | .call i op => l[i]?.map fun c => l.set i (final (op.perform callable c))
  | .operator i op => l[i]?.map fun c => l.set i (final (op.perform callable c))
  | .copy i _ => l[i]?.map fun c => l ++ [c]

omit [DecidableEq C] in
theorem contents_get : s.contents[i]? =
    s.collections[i]?.map fun self => Store.contents ⟨s.memory, self⟩ :=
  List.getElem?_map

/-- A method of one collection does what it does to the contents of this one. -/
theorem Sound.run {α : Type} {m : Method C S α} {n : Contents.Method C α} (h : Sound callable s)
    (hsim : ∀ F : Frame C S, F.locked = false → Simulates (Represents callable F) .raised m n)
    (hc : s.contents[i]? = some c) : ∃ t, Sound callable t ∧
      s.run i m = some ((outcome (n c)).mapError .raised, t) ∧
      t.contents = s.contents.set i (final (n c)) := by
  rw [contents_get] at hc
  obtain ⟨self, hi, rfl⟩ := Option.map_eq_some_iff.mp hc
  have hm := hsim _ rfl _ _ (h.focus hi)
  obtain ⟨hsound, hcontents⟩ := h.set hi hm.final
  refine ⟨_, hsound, ?_, hcontents⟩
  unfold System.run
  rw [hi, ← hm.outcome]
  rfl

omit [DecidableEq C] in
theorem run_none {α : Type} {m : Method C S α} (hc : s.contents[i]? = none) : s.run i m = none := by
  rw [contents_get] at hc
  unfold System.run
  rw [Option.map_eq_none_iff.mp hc]
  rfl

theorem Sound.called {α : Type} {m : Method C S α} {n : Contents.Method C α} (h : Sound callable s)
    (i : ℕ)
    (hsim : ∀ F : Frame C S, F.locked = false → Simulates (Represents callable F) .raised m n) :
    ((s.run i m).map Prod.snd = none ∧
        (s.contents[i]?.map fun c => s.contents.set i (final (n c))) = none) ∨
      ∃ t, (s.run i m).map Prod.snd = some t ∧ Sound callable t ∧
        (s.contents[i]?.map fun c => s.contents.set i (final (n c))) = some t.contents := by
  cases hc : s.contents[i]? with
  | none =>
    rw [run_none hc]
    exact Or.inl ⟨rfl, rfl⟩
  | some c =>
    obtain ⟨t, hsound, hrun, hcontents⟩ := h.run hsim hc
    rw [hrun]
    exact Or.inr ⟨t, rfl, hsound, congrArg some hcontents.symm⟩

theorem Sound.copy (h : Sound callable s) (hc : s.contents[i]? = some c) (o : IterationOrder C) :
    ∃ t, Sound callable t ∧ CallbackCollection.step callable s (.copy i o) = some t ∧
      t.contents = s.contents ++ [c] := by
  rw [contents_get] at hc
  obtain ⟨self, hi, rfl⟩ := Option.map_eq_some_iff.mp hc
  obtain ⟨copied, m, hrun, -, hcopy⟩ := copy_run rfl (h.focus hi) o
  have hm : self ∈ s.collections := List.mem_of_getElem? hi
  have hsub : s.addresses ⊆ s.foreign i ∪ self.addresses := by
    rintro a ⟨other, ho, ha⟩
    obtain ⟨j, hj⟩ := List.getElem?_of_mem ho
    by_cases hji : j = i
    · subst hji
      obtain rfl := Option.some.inj (hi.symm.trans hj)
      exact Or.inr ha
    · exact Or.inl ⟨j, other, hji, hj, ha⟩
  have hnew : Represents callable ⟨s.memory, s.addresses, self.sender, false⟩ ⟨m, copied⟩
      (Store.contents ⟨s.memory, self⟩) := { hcopy with
    callbacks_notMem := fun hmem => hcopy.callbacks_notMem (hsub hmem)
    weakCallbacks_notMem := fun hmem => hcopy.weakCallbacks_notMem (hsub hmem)
    agree := hcopy.agree.subset hsub }
  obtain ⟨hsound, hcontents⟩ := h.append hnew
  refine ⟨_, hsound, ?_, hcontents⟩
  have hset : s.collections.set i self = s.collections := by
    obtain ⟨hlt, rfl⟩ := List.getElem?_eq_some_iff.mp hi
    exact List.set_getElem_self hlt
  simp only [CallbackCollection.step, System.run, hi, hrun, outcome, final, hset, Option.map_some]

/-- Whatever is done, the collections are what their contents are. -/
theorem Sound.step (h : Sound callable s) (a : Action C S) :
    (CallbackCollection.step callable s a = none ∧ stepContents callable s.contents a = none) ∨
      ∃ t, CallbackCollection.step callable s a = some t ∧ Sound callable t ∧
        stepContents callable s.contents a = some t.contents := by
  cases a with
  | create sender =>
    have hnew := init_represents callable sender (h.agree (A := s.addresses) subset_rfl)
    obtain ⟨hsound, hcontents⟩ := h.append hnew
    exact Or.inr ⟨_, rfl, hsound, congrArg some hcontents.symm⟩
  | call i op => exact h.called i fun _ hF => op.refines hF
  | operator i op => exact h.called i fun _ hF => op.refines hF
  | copy i o =>
    cases hc : s.contents[i]? with
    | none =>
      simp only [CallbackCollection.step, stepContents, run_none hc, hc]
      exact Or.inl ⟨rfl, rfl⟩
    | some c =>
      obtain ⟨t, hsound, hrun, hcontents⟩ := h.copy hc o
      refine Or.inr ⟨t, hrun, hsound, ?_⟩
      simp only [stepContents, hc, Option.map_some, hcontents]

theorem empty_sound : Sound callable (System.empty : System C S) where
  represents _ hm := absurd hm List.not_mem_nil
  disjoint _ hi _ := absurd hi (by simp [System.empty])

end Values

end AioPika.CallbackCollection
