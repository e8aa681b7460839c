import AioPika.Tools.Freezing

/-! # Collections as sets

Histories of collections beside the sets that the same insertions and removals
make. A collection is such a set as long as no callback is in it both strongly and
weakly: then it has two members for one callback, and removing it leaves one.
-/

namespace AioPika.CallbackCollection

open Coroutine Transition

variable {C S : Type}

/-- A collection and its methods stand for a set. -/
structure IsSet [DecidableEq C] (s : Store C S) (A : Finset C) : Prop where
  contains : ∀ x, s.contains x = true ↔ x ∈ A
  len : s.len = A.card
  /-- Each member is visited once, in whatever order. -/
  iter : ∀ o : IterationOrder C, (s.iter o).Nodup ∧ ∀ x, x ∈ s.iter o ↔ x ∈ A

/-- Collections beside the sets that they should be. -/
structure History (C S : Type) where
  system : System C S
  sets : List (Finset C)

/-- The actions but for the operators. -/
inductive SetAction (C S : Type) where
  | create (sender : S)
  | call (i : ℕ) (op : Op C)
  | copy (i : ℕ) (o : IterationOrder C)

namespace History

/-- Every collection is its set. -/
def AreSets [DecidableEq C] (h : History C S) : Prop :=
  ∀ (i : ℕ) self A, h.system.collections[i]? = some self → h.sets[i]? = some A →
    IsSet ⟨h.system.memory, self⟩ A

end History

variable [DecidableEq C]

/-- What a method that returns does to a set; one that raises does nothing. -/
def Op.apply (op : Op C) (reply : Except (Stop (CallbackError C)) (Option C)) (A : Finset C) :
    Finset C :=
  match op, reply with
  | .add callback _, .ok _ => insert callback A
  | .discard callback, .ok _ | .remove callback, .ok _ => A.erase callback
  | .pop _, .ok (some callback) => A.erase callback
  | .clear, .ok _ => ∅
  | _, _ => A

variable (callable : C → Bool)

def History.step (h : History C S) : SetAction C S → Option (History C S)
  | .create sender =>
    (CallbackCollection.step callable h.system (.create sender)).map fun t => ⟨t, h.sets ++ [∅]⟩
  | .call i op =>
    (h.system.run i (op.run callable)).map fun (reply, t) =>
      ⟨t, h.sets.modify i (op.apply reply)⟩
  | .copy i o =>
    (CallbackCollection.step callable h.system (.copy i o)).map fun t =>
      ⟨t, h.sets ++ h.sets[i]?.toList⟩

/-- A callback that is added is not there already under the other kind. -/
def Op.Unmixed (c : Contents C) : Op C → Prop
  | .add callback weak => c.frozen = false → callable callback = true →
      callback ∉ if weak then c.strong else c.weak
  | _ => True

def Unmixed (h : History C S) : SetAction C S → Prop
  | .call i op => ∀ c ∈ h.system.contents[i]?, op.Unmixed callable c
  | _ => True

def History.empty : History C S := ⟨.empty, []⟩

variable {callable} {c : Contents C} {A : Finset C}

section Contents

/-- The contents are a set, and no callback is in them twice. -/
def Contents.IsSet (c : Contents C) (A : Finset C) : Prop :=
  c.members = A ∧ Disjoint c.strong c.weak

theorem isSet_iff {s : Store C S} : IsSet s A ↔ s.contents.IsSet A := by
  have hcontains (x : C) : s.contains x = true ↔ x ∈ s.contents.members := by
    rw [Contents.members, Finset.mem_union, Store.contains, decide_eq_true_iff]
    rfl
  have hlen : s.len = s.strong.card + s.weak.card := rfl
  constructor
  · intro h
    have hmem : s.contents.members = A := by
      ext x
      rw [← hcontains, h.contains]
    refine ⟨hmem, ?_⟩
    have hcard : (s.strong ∪ s.weak).card = s.strong.card + s.weak.card := by
      rw [← hlen, h.len, ← hmem]
      rfl
    exact Finset.card_union_eq_card_add_card.mp hcard
  · rintro ⟨rfl, hd⟩
    refine ⟨hcontains, ?_, fun o => ?_⟩
    · rw [hlen]
      exact (Finset.card_union_of_disjoint hd).symm
    · constructor
      · rw [Store.iter, List.nodup_append]
        refine ⟨o.nodup _, o.nodup _, ?_⟩
        intro x hx y hy he
        subst he
        exact Finset.disjoint_left.mp hd ((o.mem_iff _ _).mp hx) ((o.mem_iff _ _).mp hy)
      · intro x
        rw [Store.iter, List.mem_append, o.mem_iff, o.mem_iff, Contents.members, Finset.mem_union]
        rfl

theorem isSet_insert_iff (h : c.IsSet A) {callback : C} {weak : Bool} :
    (c.insert callback weak).IsSet (insert callback A) ↔
      callback ∉ if weak then c.strong else c.weak := by
  obtain ⟨rfl, hd⟩ := h
  cases weak with
  | true =>
    have hmem : (c.insert callback true).members = insert callback c.members :=
      Finset.union_insert _ _ _
    have hdisj : Disjoint c.strong (insert callback c.weak) ↔ callback ∉ c.strong := by
      rw [Finset.disjoint_insert_right]
      exact and_iff_left hd
    exact (and_iff_right hmem).trans hdisj
  | false =>
    have hmem : (c.insert callback false).members = insert callback c.members :=
      Finset.insert_union _ _ _
    have hdisj : Disjoint (insert callback c.strong) c.weak ↔ callback ∉ c.weak := by
      rw [Finset.disjoint_insert_left]
      exact and_iff_left hd
    exact (and_iff_right hmem).trans hdisj

theorem isSet_erase (h : c.IsSet A) (callback : C) :
    (c.erase callback).IsSet (A.erase callback) := by
  obtain ⟨rfl, hd⟩ := h
  unfold Contents.erase
  by_cases hs : callback ∈ c.strong
  · rw [if_pos hs]
    refine ⟨?_, hd.mono_left (Finset.erase_subset _ _)⟩
    rw [Contents.members, Contents.members, Finset.erase_union_distrib,
      Finset.erase_eq_of_notMem (Finset.disjoint_left.mp hd hs)]
  · rw [if_neg hs]
    refine ⟨?_, hd.mono_right (Finset.erase_subset _ _)⟩
    rw [Contents.members, Contents.members, Finset.erase_union_distrib,
      Finset.erase_eq_of_notMem hs]

theorem isSet_of_error {α : Type} {f : Contents.Method C α} {e : CallbackError C} (h : c.IsSet A)
    (hf : f c = .error e c) {op : Op C} {g : α → Contents.Method C (Option C)} :
    (final ((f >>= g) c)).IsSet (op.apply ((outcome ((f >>= g) c)).mapError .raised) A) := by
  rw [bind_error hf]
  cases op <;> exact h

theorem isSet_of_ok {α : Type} {f : Contents.Method C α} {a : α} {d : Contents C}
    (hf : f c = .ok a d) {op : Op C} {g : α → Option C} (h : d.IsSet (op.apply (.ok (g a)) A)) :
    (final ((f >>= fun a => pure (g a)) c)).IsSet
      (op.apply ((outcome ((f >>= fun a => pure (g a)) c)).mapError .raised) A) := by
  rw [bind_ok hf]
  exact h

omit [DecidableEq C] in
theorem guarded_cases (frozen : Bool) {exc : CallbackError C} {f : Contents C → Contents C} :
    (∃ e, (get >>= fun c => if c.frozen = frozen then throw exc else modify f :
        Contents.Method C PUnit) c = .error e c) ∨
      (get >>= fun c => if c.frozen = frozen then throw exc else modify f :
        Contents.Method C PUnit) c = .ok () (f c) := by
  by_cases hf : c.frozen = frozen
  · exact Or.inl ⟨exc, guard_error hf⟩
  · exact Or.inr (guard_ok hf)

variable (callable) in
theorem add_cases (callback : C) (weak : Bool) :
    (∃ e, Contents.add callable callback weak c = .error e c ∧
        ¬ (c.frozen = false ∧ callable callback = true)) ∨
      Contents.add callable callback weak c = .ok () (c.insert callback weak) ∧
        c.frozen = false ∧ callable callback = true := by
  by_cases hf : c.frozen = true
  · exact Or.inl ⟨_, add_frozen hf callback weak, fun h => by simp [hf] at h⟩
  by_cases hc : callable callback = false
  · refine Or.inl ⟨.valueError "Callback is not callable", ?_, fun h => by simp [hc] at h⟩
    unfold Contents.add
    rw [bind_ok get_run, if_neg hf, if_pos hc]
    rfl
  · have hf' : c.frozen = false := by simpa using hf
    have hc' : callable callback = true := by simpa using hc
    exact Or.inr ⟨add_ok hf' hc' weak, hf', hc'⟩

theorem discard_cases (callback : C) : (∃ e, Contents.discard callback c = .error e c) ∨
    Contents.discard callback c = .ok () (c.erase callback) :=
  guarded_cases true

variable (callable) in
theorem remove_cases (callback : C) :
    (∃ e, (Contents.mutableSet callable).remove callback c = .error e c) ∨
      (Contents.mutableSet callable).remove callback c = .ok () (c.erase callback) := by
  unfold MutableSet.remove
  rw [bind_ok get_run]
  split
  · exact Or.inl ⟨_, rfl⟩
  · have hd := discard_cases (c := c) callback
    exact hd

variable (callable) in
theorem pop_cases (o : IterationOrder C) :
    (∃ e, (Contents.mutableSet callable).pop o c = .error e c) ∨
      ∃ callback, (Contents.mutableSet callable).pop o c = .ok callback (c.erase callback) := by
  unfold MutableSet.pop
  rw [bind_ok get_run]
  cases (Contents.mutableSet callable).iter o c with
  | nil => exact Or.inl ⟨_, rfl⟩
  | cons callback _ =>
    rcases discard_cases (c := c) callback with ⟨e, hd⟩ | hd
    · exact Or.inl ⟨e, bind_error hd⟩
    · exact Or.inr ⟨callback, bind_ok hd⟩

omit [DecidableEq C] in
theorem clear_cases : (∃ e, Contents.clear c = .error e c) ∨
    Contents.clear c = .ok () { c with strong := ∅, weak := ∅ } :=
  guarded_cases true

omit [DecidableEq C] in
theorem freeze_cases : (∃ e, Contents.freeze c = .error e c) ∨
    Contents.freeze c = .ok () { c with frozen := true } :=
  guarded_cases true

omit [DecidableEq C] in
theorem unfreeze_cases : (∃ e, Contents.unfreeze c = .error e c) ∨
    Contents.unfreeze c = .ok () { c with frozen := false } :=
  guarded_cases false

/-- The methods keep a set a set, but for a callback that is added under the other kind. -/
theorem perform_isSet (h : c.IsSet A) (op : Op C) :
    (final (op.perform callable c)).IsSet
        (op.apply ((outcome (op.perform callable c)).mapError .raised) A) ↔
      op.Unmixed callable c := by
  cases op with
  | add callback weak =>
    rcases add_cases callable (c := c) callback weak with
      ⟨e, hadd, hn⟩ | ⟨hadd, hf, hc⟩
    · exact iff_of_true (isSet_of_error h hadd) fun hf hc => absurd ⟨hf, hc⟩ hn
    · have hrun : (Op.add callback weak).perform callable c =
          .ok none (c.insert callback weak) := bind_ok hadd
      rw [hrun]
      exact (isSet_insert_iff h).trans ⟨fun hm _ _ => hm, fun hm => hm hf hc⟩
  | discard callback =>
    refine iff_of_true ?_ trivial
    rcases discard_cases (c := c) callback with ⟨e, hd⟩ | hd
    · exact isSet_of_error h hd
    · exact isSet_of_ok hd (isSet_erase h callback)
  | remove callback =>
    refine iff_of_true ?_ trivial
    rcases remove_cases callable (c := c) callback with ⟨e, hr⟩ | hr
    · exact isSet_of_error h hr
    · exact isSet_of_ok hr (isSet_erase h callback)
  | pop o =>
    refine iff_of_true ?_ trivial
    rcases pop_cases callable (c := c) o with ⟨e, hp⟩ | ⟨callback, hp⟩
    · exact isSet_of_error h hp
    · exact isSet_of_ok hp (isSet_erase h callback)
  | clear =>
    refine iff_of_true ?_ trivial
    rcases clear_cases (c := c) with ⟨e, hc⟩ | hc
    · exact isSet_of_error h hc
    · exact isSet_of_ok hc ⟨Finset.union_empty _, Finset.disjoint_empty_left _⟩
  | freeze =>
    refine iff_of_true ?_ trivial
    rcases freeze_cases (c := c) with ⟨e, hf⟩ | hf
    · exact isSet_of_error h hf
    · exact isSet_of_ok hf h
  | unfreeze =>
    refine iff_of_true ?_ trivial
    rcases unfreeze_cases (c := c) with ⟨e, hf⟩ | hf
    · exact isSet_of_error h hf
    · exact isSet_of_ok hf h

end Contents

section Histories

variable {h h' : History C S} {a : SetAction C S} {i : ℕ}

theorem areSets_iff : h.AreSets ↔
    ∀ (i : ℕ) c A, h.system.contents[i]? = some c → h.sets[i]? = some A → c.IsSet A := by
  unfold History.AreSets
  constructor
  · intro hs i c A hc hA
    rw [contents_get] at hc
    obtain ⟨self, hi, rfl⟩ := Option.map_eq_some_iff.mp hc
    exact isSet_iff.mp (hs i self A hi hA)
  · intro hs i self A hi hA
    apply isSet_iff.mpr (hs i _ A _ hA)
    rw [contents_get, hi]
    rfl

/-- There is one set for each collection. -/
def Aligned (callable : C → Bool) (h : History C S) : Prop :=
  Sound callable h.system ∧ h.sets.length = h.system.contents.length

theorem areSets_append {t : System C S} (hl : h.sets.length = h.system.contents.length)
    (hs : h.AreSets) (hnew : c.IsSet A) (ht : t.contents = h.system.contents ++ [c]) :
    History.AreSets ⟨t, h.sets ++ [A]⟩ := by
  rw [areSets_iff] at hs ⊢
  intro j d B hd hB
  rw [ht] at hd
  rcases Members.of_append hd with hd | ⟨hj, rfl⟩
  · rcases Members.of_append hB with hB | ⟨hj, -⟩
    · exact hs j d B hd hB
    · have hlt := (List.getElem?_eq_some_iff.mp hd).1
      omega
  · rcases Members.of_append hB with hB | ⟨-, rfl⟩
    · have hlt := (List.getElem?_eq_some_iff.mp hB).1
      omega
    · exact hnew

theorem areSets_modify {t : System C S} {f : Finset C → Finset C}
    (hc : h.system.contents[i]? = some c) (hA : h.sets[i]? = some A) (hs : h.AreSets)
    {d : Contents C} (ht : t.contents = h.system.contents.set i d) :
    History.AreSets ⟨t, h.sets.modify i f⟩ ↔ d.IsSet (f A) := by
  have hlt : i < h.system.contents.length := (List.getElem?_eq_some_iff.mp hc).1
  rw [areSets_iff] at hs ⊢
  constructor
  · intro hnew
    refine hnew i d (f A) ?_ ?_
    · rw [ht, List.getElem?_set_self hlt]
    · rw [List.getElem?_modify, hA]
      simp
  · intro hd j e B he hB
    rw [ht] at he
    obtain ⟨B', hB', ⟨rfl, rfl⟩ | ⟨hne, rfl⟩⟩ := Members.of_modify hB
    · obtain rfl : A = B' := Option.some.inj (hA.symm.trans hB')
      rw [List.getElem?_set_self hlt] at he
      obtain rfl := Option.some.inj he
      exact hd
    · rw [List.getElem?_set_ne hne] at he
      exact hs j e B he hB'

theorem history_step (hJ : Aligned callable h) (hs : h.AreSets)
    (hst : h.step callable a = some h') : Aligned callable h' ∧
      (h'.AreSets ↔ Unmixed callable h a) := by
  obtain ⟨hsound, hl⟩ := hJ
  cases a with
  | create sender =>
    rw [History.step] at hst
    obtain ⟨t, ht, rfl⟩ := Option.map_eq_some_iff.mp hst
    obtain ⟨hsound', hc⟩ := sound_step hsound ht
    have ht : t.contents = h.system.contents ++ [.empty] := (Option.some.inj hc).symm
    refine ⟨⟨hsound', ?_⟩, iff_of_true ?_ trivial⟩
    · rw [ht, List.length_append, List.length_append, hl]
      rfl
    · exact areSets_append hl hs ⟨Finset.union_empty _, Finset.disjoint_empty_left _⟩ ht
  | call i op =>
    obtain ⟨⟨reply, t⟩, hrun, rfl⟩ := Option.map_eq_some_iff.mp hst
    cases hc : h.system.contents[i]? with
    | none =>
      rw [run_none hc] at hrun
      cases hrun
    | some c =>
      obtain ⟨t', hsound', hrun', ht⟩ := hsound.run (fun _ hF => op.refines hF) hc
      obtain ⟨rfl, rfl⟩ := Prod.mk.inj (Option.some.inj (hrun'.symm.trans hrun))
      have hlt : i < h.sets.length := hl ▸ (List.getElem?_eq_some_iff.mp hc).1
      have hA := List.getElem?_eq_getElem hlt
      have hset : c.IsSet h.sets[i] := (areSets_iff.mp hs) i c _ hc hA
      refine ⟨⟨hsound', ?_⟩, ?_⟩
      · rw [ht, List.length_set, List.length_modify, hl]
      · rw [areSets_modify hc hA hs ht, perform_isSet hset op]
        simp [Unmixed, hc]
  | copy i o =>
    obtain ⟨t, ht, rfl⟩ := Option.map_eq_some_iff.mp hst
    obtain ⟨hsound', hc⟩ := sound_step hsound ht
    obtain ⟨c, hi, ht⟩ := Option.map_eq_some_iff.mp hc
    have hlt : i < h.sets.length := hl ▸ (List.getElem?_eq_some_iff.mp hi).1
    have hA := List.getElem?_eq_getElem hlt
    rw [hA]
    refine ⟨⟨hsound', ?_⟩, iff_of_true ?_ trivial⟩
    · rw [← ht, List.length_append, List.length_append, hl]
      rfl
    · exact areSets_append hl hs ((areSets_iff.mp hs) i c _ hi hA) ht.symm

end Histories

/-- Collections are sets throughout a history exactly if no callback is added to one of which it
is a member under the other kind. -/
theorem collections_are_sets_iff (callable : C → Bool) (as : List (SetAction C S)) :
    Throughout (History.step callable) History.AreSets History.empty as ↔
      EachStep (History.step callable) (Unmixed callable) History.empty as := by
  apply throughout_iff_eachStep (J := Aligned callable)
  · intro h a h' hJ hs hst _
    exact (history_step hJ hs hst).1
  · intro h a h' hJ hs hst
    exact (history_step hJ hs hst).2
  · exact ⟨empty_sound, rfl⟩
  · intro i self A hi
    simp [History.empty, System.empty] at hi

def addedTwice : List (SetAction ℕ Unit) :=
  [.create (), .call 0 (.add 1 true), .call 0 (.add 1 false), .call 0 (.discard 1)]

/-- The callback that was discarded is still there. -/
theorem discarded_once : ∃ h self,
    Run (History.step fun _ => true) (fun _ _ => True) History.empty addedTwice h ∧
    h.system.collections[0]? = some self ∧ h.sets[0]? = some ∅ ∧
    Store.contains ⟨h.system.memory, self⟩ 1 = true ∧ ¬ h.AreSets := by
  obtain ⟨h, self, hr, hi, hA, hc⟩ : ∃ h self,
      checked (History.step fun _ => true) (fun _ _ => True) History.empty addedTwice = some h ∧
      h.system.collections[0]? = some self ∧ h.sets[0]? = some ∅ ∧
      Store.contains ⟨h.system.memory, self⟩ 1 = true := ⟨_, _, rfl, rfl, rfl, rfl⟩
  refine ⟨h, self, run_of_checked hr, hi, hA, hc, fun hs => ?_⟩
  exact Finset.notMem_empty 1 (((hs 0 self ∅ hi hA).contains 1).mp hc)

end AioPika.CallbackCollection
