import AioPika.Tools.Collections

/-! # Freezing and copying

While a collection is frozen every method that would change it raises, whichever
way it takes to the sets. A copy has the members and the flag of its original, and
neither changes with the other.
-/

namespace AioPika.CallbackCollection

open Coroutine Transition

variable {C S : Type} [DecidableEq C] {callable : C → Bool} {c : Contents C}

/-- The method refuses to change a frozen collection, with this message. -/
def Op.refusal : Op C → Option String
  | .add _ _ | .discard _ | .clear => some "Collection frozen"
  | .freeze => some "Collection already frozen"
  | .remove _ | .pop _ | .unfreeze => none

/-- Collection `i` is called, or is the operand of an operator that changes it. -/
def Action.Calls (i : ℕ) : Action C S → Prop
  | .call j _ | .operator j _ => j = i
  | .create _ | .copy _ _ => False

variable (callable) in
/-- Whatever is done to others, collection `i` has these contents. -/
def Isolated (s : System C S) (i : ℕ) (c : Contents C) : Prop :=
  ∀ as t, Run (step callable) (fun _ a => ¬ a.Calls i) s as t → t.contents[i]? = some c

variable (callable) in
/-- A copy of collection `i` has the same contents, and neither of the two changes with the
other. -/
def CopiesApart (s : System C S) (i : ℕ) (c : Contents C) : Prop :=
  ∀ o, ∃ t, step callable s (.copy i o) = some t ∧ t.contents = s.contents ++ [c] ∧
    Isolated callable t i c ∧ Isolated callable t s.contents.length c

variable (callable) in
/-- Until collection `i` is unfrozen it has these contents, and methods refuse to change it. -/
def StaysFrozen (s : System C S) (i : ℕ) (c : Contents C) : Prop :=
  ∀ as t, Run (step callable) (fun _ a => a ≠ .call i .unfreeze) s as t →
    t.contents[i]? = some c ∧
    ∀ (op : Op C) message, op.refusal = some message →
      ∃ u, t.run i (op.run callable) = some (.error (.raised (.runtimeError message)), u) ∧
        u.contents = t.contents

variable (callable) in
/-- Collection `i` can be frozen, stays so, and is what it was when it is unfrozen. -/
def Thaws (s : System C S) (i : ℕ) (c : Contents C) : Prop :=
  ∃ t, step callable s (.call i .freeze) = some t ∧
    StaysFrozen callable t i { c with frozen := true } ∧
    ∀ as u, Run (step callable) (fun _ a => a ≠ .call i .unfreeze) t as u →
      ∃ v, step callable u (.call i .unfreeze) = some v ∧ v.contents[i]? = some c

section Frozen

def Unchanged (c : Contents C) (d e : Contents C) : Prop := d = c ∧ e = c

theorem add_frozen (hf : c.frozen = true) (callback : C) (weak : Bool) :
    Contents.add callable callback weak c = .error (.runtimeError "Collection frozen") c :=
  guard_error hf

theorem discard_frozen (hf : c.frozen = true) (callback : C) :
    Contents.discard callback c = .error (.runtimeError "Collection frozen") c :=
  guard_error hf

omit [DecidableEq C] in
theorem clear_frozen (hf : c.frozen = true) :
    Contents.clear c = .error (.runtimeError "Collection frozen") c :=
  guard_error hf

omit [DecidableEq C] in
theorem freeze_frozen (hf : c.frozen = true) :
    Contents.freeze c = .error (.runtimeError "Collection already frozen") c :=
  guard_error hf

theorem perform_refusal {op : Op C} {message : String} (hf : c.frozen = true)
    (h : op.refusal = some message) : op.perform callable c = .error (.runtimeError message) c := by
  cases op with
  | add callback weak =>
    obtain rfl := Option.some.inj h
    exact bind_error (add_frozen hf callback weak)
  | discard callback =>
    obtain rfl := Option.some.inj h
    exact bind_error (discard_frozen hf callback)
  | clear =>
    obtain rfl := Option.some.inj h
    exact bind_error (clear_frozen hf)
  | freeze =>
    obtain rfl := Option.some.inj h
    exact bind_error (freeze_frozen hf)
  | remove callback => cases h
  | pop o => cases h
  | unfreeze => cases h

omit [DecidableEq C] in
theorem unchanged_of_error {α : Type} {f : Contents.Method C α} {e : CallbackError C}
    (h : f c = .error e c) : Simulates (Unchanged c) id f f := by
  rintro s t ⟨rfl, rfl⟩
  rw [h]
  exact .error e ⟨rfl, rfl⟩

variable (callable) in
/-- What `MutableSet` builds from methods that raise changes nothing. -/
theorem mutableSet_frozen (hf : c.frozen = true) : MutableSet.Refines (Unchanged c) id
    (Contents.mutableSet callable) (Contents.mutableSet callable) where
  contains := by
    rintro x s t ⟨rfl, rfl⟩
    rfl
  iter := by
    rintro o s t ⟨rfl, rfl⟩
    rfl
  add callback := unchanged_of_error (add_frozen hf callback false)
  discard callback := unchanged_of_error (discard_frozen hf callback)
  clear := unchanged_of_error (clear_frozen hf)
  fromIterable := rfl
  keyError _ := rfl

theorem perform_frozen (hf : c.frozen = true) {op : Op C} (hop : op ≠ .unfreeze) :
    final (op.perform callable c) = c := by
  have hset := mutableSet_frozen callable hf
  have hsim : Simulates (Unchanged c) id (op.perform callable) (op.perform callable) := by
    cases op with
    | add callback weak =>
      exact (unchanged_of_error (add_frozen hf callback weak)).bind fun _ => simulates_pure none
    | discard callback => exact (hset.discard callback).bind fun _ => simulates_pure none
    | remove callback => exact (hset.remove callback).bind fun _ => simulates_pure none
    | pop o => exact (hset.pop o).bind fun x => simulates_pure (some x)
    | clear => exact hset.clear.bind fun _ => simulates_pure none
    | freeze => exact (unchanged_of_error (freeze_frozen hf)).bind fun _ => simulates_pure none
    | unfreeze => exact absurd rfl hop
  exact (hsim c c ⟨rfl, rfl⟩).final.1

theorem operator_frozen (hf : c.frozen = true) (op : Operator C) :
    final (op.perform callable c) = c := by
  have hset := mutableSet_frozen callable hf
  have hsim : Simulates (Unchanged c) id (op.perform callable) (op.perform callable) := by
    cases op with
    | ior o it => exact hset.ior o it
    | iand o it => exact hset.iand o it
    | isub it => exact hset.isub it
    | ixor it => exact hset.ixor it
  exact (hsim c c ⟨rfl, rfl⟩).final.1

end Frozen

section Steps

variable {s t : System C S} {a : Action C S} {as : List (Action C S)} {i : ℕ}

/-- A collection is changed only by its own methods, and not while it is frozen. -/
theorem contents_step {l l' : List (Contents C)} (hi : l[i]? = some c)
    (ha : ¬ a.Calls i ∨ c.frozen = true ∧ a ≠ .call i .unfreeze)
    (h : stepContents callable l a = some l') : l'[i]? = some c := by
  have hlt : i < l.length := (List.getElem?_eq_some_iff.mp hi).1
  -- a method of collection `j`
  have hset {j : ℕ} {f : Contents C → Contents C} (hne : j = i → f c = c)
      (h : (l[j]?.map fun d => l.set j (f d)) = some l') : l'[i]? = some c := by
    obtain ⟨d, hd, rfl⟩ := Option.map_eq_some_iff.mp h
    by_cases hj : j = i
    · subst hj
      obtain rfl := Option.some.inj (hi.symm.trans hd)
      rw [List.getElem?_set_self hlt, hne rfl]
    · rw [List.getElem?_set_ne hj, hi]
  cases a with
  | create sender =>
    obtain rfl := Option.some.inj h
    rw [List.getElem?_append_left hlt, hi]
  | call j op =>
    apply hset _ h
    rintro rfl
    rcases ha with ha | ⟨hf, ha⟩
    · exact absurd rfl ha
    · exact perform_frozen hf fun hop => ha (hop ▸ rfl)
  | operator j op =>
    apply hset _ h
    rintro rfl
    rcases ha with ha | ⟨hf, -⟩
    · exact absurd rfl ha
    · exact operator_frozen hf op
  | copy j o =>
    obtain ⟨d, -, rfl⟩ := Option.map_eq_some_iff.mp h
    rw [List.getElem?_append_left hlt, hi]

theorem sound_step (hs : Sound callable s) (h : step callable s a = some t) :
    Sound callable t ∧ stepContents callable s.contents a = some t.contents := by
  obtain ⟨hnone, -⟩ | ⟨t', ht', hsound, hcontents⟩ := hs.step a
  · rw [hnone] at h
    cases h
  · obtain rfl := Option.some.inj (ht'.symm.trans h)
    exact ⟨hsound, hcontents⟩

theorem step_of_contents (hs : Sound callable s) {l : List (Contents C)}
    (h : stepContents callable s.contents a = some l) :
    ∃ t, step callable s a = some t ∧ Sound callable t ∧ t.contents = l := by
  obtain ⟨-, hnone⟩ | ⟨t, ht, hsound, hcontents⟩ := hs.step a
  · rw [hnone] at h
    cases h
  · exact ⟨t, ht, hsound, Option.some.inj (hcontents.symm.trans h)⟩

theorem sound_run {ok : System C S → Action C S → Prop} (hs : Sound callable s)
    (h : Run (step callable) ok s as t) : Sound callable t := by
  apply h.invariant (I := Sound callable) _ hs
  intro s a t hs _ hst
  exact (sound_step hs hst).1

theorem sound_of_reach {ok : System C S → Action C S → Prop}
    (h : Reach (· = System.empty) (step callable) ok s) : Sound callable s := by
  obtain ⟨s₀, as, rfl, hr⟩ := h
  exact sound_run empty_sound hr

theorem contents_run (hs : Sound callable s) (hi : s.contents[i]? = some c)
    {ok : System C S → Action C S → Prop}
    (hok : ∀ s a, ok s a → ¬ a.Calls i ∨ c.frozen = true ∧ a ≠ .call i .unfreeze)
    (h : Run (step callable) ok s as t) : t.contents[i]? = some c := by
  have hinv : Sound callable t ∧ t.contents[i]? = some c := by
    apply h.invariant (I := fun s => Sound callable s ∧ s.contents[i]? = some c)
    · rintro s a t ⟨hs, hi⟩ ha hst
      obtain ⟨ht, hcontents⟩ := sound_step hs hst
      exact ⟨ht, contents_step hi (hok _ _ ha) hcontents⟩
    · exact ⟨hs, hi⟩
  exact hinv.2

theorem isolated_of_sound (hs : Sound callable s) (hi : s.contents[i]? = some c) :
    Isolated callable s i c :=
  fun _ _ h => contents_run hs hi (fun _ _ ha => Or.inl ha) h

theorem copiesApart_of_sound (hs : Sound callable s) (hi : s.contents[i]? = some c) :
    CopiesApart callable s i c := by
  intro o
  have hstep : stepContents callable s.contents (.copy i o : Action C S) =
      some (s.contents ++ [c]) := by
    simp only [stepContents, hi, Option.map_some]
  obtain ⟨t, ht, hsound, hcontents⟩ := step_of_contents hs hstep
  have hlt : i < s.contents.length := (List.getElem?_eq_some_iff.mp hi).1
  refine ⟨t, ht, hcontents, isolated_of_sound hsound ?_, isolated_of_sound hsound ?_⟩
  · rw [hcontents, List.getElem?_append_left hlt, hi]
  · rw [hcontents, List.getElem?_concat_length]

theorem staysFrozen_of_sound (hs : Sound callable s) (hi : s.contents[i]? = some c)
    (hf : c.frozen = true) : StaysFrozen callable s i c := by
  intro as t h
  have ht : t.contents[i]? = some c := contents_run hs hi (fun _ _ ha => Or.inr ⟨hf, ha⟩) h
  refine ⟨ht, fun op message hop => ?_⟩
  obtain ⟨u, -, hrun, hcontents⟩ := (sound_run hs h).run (fun _ hF => op.refines hF) ht
  rw [perform_refusal hf hop] at hrun hcontents
  refine ⟨u, hrun, ?_⟩
  obtain ⟨hlt, hget⟩ := List.getElem?_eq_some_iff.mp ht
  rw [hcontents, ← hget]
  exact List.set_getElem_self hlt

theorem thaws_of_sound (hs : Sound callable s) (hi : s.contents[i]? = some c)
    (hf : c.frozen = false) : Thaws callable s i c := by
  have hlt : i < s.contents.length := (List.getElem?_eq_some_iff.mp hi).1
  have hfreeze : final (Op.freeze.perform callable c) = { c with frozen := true } := by
    have hrun : Contents.freeze c = .ok () { c with frozen := true } :=
      guard_ok (by simpa using hf)
    exact congrArg final (bind_ok hrun)
  have hstep : stepContents callable s.contents (.call i .freeze : Action C S) =
      some (s.contents.set i { c with frozen := true }) := by
    simp only [stepContents, hi, Option.map_some, hfreeze]
  obtain ⟨t, ht, hsound, hcontents⟩ := step_of_contents hs hstep
  have hti : t.contents[i]? = some { c with frozen := true } := by
    rw [hcontents, List.getElem?_set_self hlt]
  have hstay := staysFrozen_of_sound hsound hti rfl
  refine ⟨t, ht, hstay, fun as u h => ?_⟩
  have hui := (hstay as u h).1
  have hthaw : stepContents callable u.contents (.call i .unfreeze : Action C S) =
      some (u.contents.set i { c with frozen := false }) := by
    simp only [stepContents, hui, Option.map_some]
    rfl
  obtain ⟨v, hv, -, hcontents'⟩ := step_of_contents (sound_run hsound h) hthaw
  have hc : { c with frozen := false } = c := by rw [← hf]
  refine ⟨v, hv, ?_⟩
  rw [hcontents', hc, List.getElem?_set_self (List.getElem?_eq_some_iff.mp hui).1]

end Steps

/-- Whatever was done before, a collection is copied faithfully and apart, is not changed while it
is frozen, and is what it was when it is unfrozen. -/
theorem freezing_and_copying {s : System C S} {i : ℕ}
    (h : Reach (· = System.empty) (step callable) (fun _ _ => True) s)
    (hi : s.contents[i]? = some c) : CopiesApart callable s i c ∧
      (c.frozen = true → StaysFrozen callable s i c) ∧ (c.frozen = false → Thaws callable s i c) :=
  have hs := sound_of_reach h
  ⟨copiesApart_of_sound hs hi, staysFrozen_of_sound hs hi, thaws_of_sound hs hi⟩

def oneOfEach : List (Action ℕ Unit) :=
  [.create (), .call 0 (.add 1 false), .call 0 (.add 2 true)]

theorem copied_and_frozen : ∃ s, checked (step fun _ => true) (fun _ _ => True) System.empty
    oneOfEach = some s ∧ CopiesApart (fun _ => true) s 0 ⟨{1}, {2}, false⟩ ∧
      Thaws (fun _ => true) s 0 ⟨{1}, {2}, false⟩ := by
  obtain ⟨s, hs, hc⟩ : ∃ s, checked (step fun _ => true) (fun _ _ => True) System.empty
      oneOfEach = some s ∧ s.contents[0]? = some ⟨{1}, {2}, false⟩ := ⟨_, rfl, rfl⟩
  have h := freezing_and_copying (Reach.of_checked oneOfEach rfl hs) hc
  exact ⟨s, hs, h.1, h.2.2 rfl⟩

end AioPika.CallbackCollection
