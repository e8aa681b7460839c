import AioPika.Rpc.Shutdown

/-! # Replies that come too late

`on_result_message` takes the future of its message out of the table without a
look whether it is done, and looks no more when the message is deserialised. A
future that is done stays in the table until its callback runs, and one that is
taken can still be cancelled by the caller; both refuse the reply.
-/

namespace AioPika.Rpc

variable {Id B V : Type*}

/-- The action has `on_result_message` call `set_result` or `set_exception` on a future that is
done, which raises `InvalidStateError`. -/
def Late (s : State Id B V) : Action Id B V → Prop
  | .deserialized j => ∃ h ∈ s.handlers[j]?, h.finished = false ∧
      ∃ f ∈ s.made[h.future]?, f.outcome ≠ none
  | _ => False

/-- Whatever comes next is not late. -/
def Timely (s : State Id B V) : Prop := ∀ a, ¬ Late s a

variable [DecidableEq Id] (codec : Codec Id B V)

/-- A result message finds a future that is not done, and the caller is not cancelled while the
reply is deserialised. -/
def InWindow (s : State Id B V) : Action Id B V → Prop
  | .resultMessage m => ∀ id ∈ m.correlationId, ∀ i ∈ s.futures.get? id, ∀ f ∈ s.made[i]?,
      f.outcome = none
  | .cancelled i => ∀ h ∈ s.handlers, h.finished = false → h.future ≠ i
  | _ => True

/-- A future is in the table once, or one result message has taken it. -/
structure Linked (s : State Id B V) : Prop where
  known : Known s
  one : ∀ id id' i, s.futures.get? id = some i → s.futures.get? id' = some i → id = id'
  taken : ∀ h ∈ s.handlers, ∀ id, s.futures.get? id ≠ some h.future
  apart : ∀ (i j : ℕ) (h h' : Handler Id B), s.handlers[i]? = some h → s.handlers[j]? = some h' →
    h.future = h'.future → i = j

variable {codec} {s t : State Id B V} {a : Action Id B V} {id : Id} {i j k : ℕ}
  {m : Message Id B} {o : Outcome V}

theorem fresh_linked : Linked (fresh : State Id B V) := by
  constructor
  · exact fresh_known
  · rintro id id' i ⟨⟩
  · rintro h ⟨⟩
  · rintro i j h h' ⟨⟩

theorem Linked.of_le (h : Linked s) (hk : Known t)
    (hf : ∀ id i, t.futures.get? id = some i → s.futures.get? id = some i)
    (hh : ∀ (j : ℕ) (x : Handler Id B), t.handlers[j]? = some x →
      ∃ y, s.handlers[j]? = some y ∧ y.future = x.future) : Linked t := by
  constructor
  · exact hk
  · exact fun id id' i hi hi' => h.one id id' i (hf id i hi) (hf id' i hi')
  · intro x hx id hi
    obtain ⟨j, hj⟩ := List.getElem?_of_mem hx
    obtain ⟨y, hy, he⟩ := hh j x hj
    rw [← he] at hi
    exact h.taken y (List.mem_of_getElem? hy) id (hf id _ hi)
  · intro i j x x' hi hj he
    obtain ⟨y, hy, hey⟩ := hh i x hi
    obtain ⟨y', hy', hey'⟩ := hh j x' hj
    exact h.apart i j y y' hy hy' (hey.trans (he.trans hey'.symm))

omit [DecidableEq Id] in
theorem handler_of_set {finished : Bool} (hj : s.handlers[j]? = some ⟨k, m, false⟩) {l : ℕ}
    {x : Handler Id B} (hx : (s.handlers.set j ⟨k, m, finished⟩)[l]? = some x) :
    ∃ y, s.handlers[l]? = some y ∧ y.future = x.future := by
  rcases Members.of_set hx with ⟨rfl, rfl⟩ | ⟨-, hx⟩
  · exact ⟨_, hj, rfl⟩
  · exact ⟨x, hx, rfl⟩

theorem linked_step (h : Linked s) (hs : step codec s a = some t) : Linked t := by
  have hk : Known t := known_step h.known hs
  cases step_cases hs with
  | @call id =>
    have hlt : ∀ id' i, s.futures.get? id' = some i → i ≠ s.made.length := by
      intro id' i hi he
      exact absurd (he ▸ h.known.futures id' i hi) (Nat.lt_irrefl _)
    have hget : ∀ {id' i}, (s.futures.set id s.made.length).get? id' = some i →
        id' = id ∧ i = s.made.length ∨ s.futures.get? id' = some i := by
      intro id' i hi
      rw [Dict.get?_set] at hi
      split at hi
      · exact Or.inl ⟨‹_›, (Option.some.inj hi).symm⟩
      · exact Or.inr hi
    refine ⟨hk, fun id₁ id₂ i hi hi' => ?_, fun x hx id' hi => ?_, h.apart⟩
    · rcases hget hi with ⟨rfl, he⟩ | hi
      · rcases hget hi' with ⟨rfl, -⟩ | hi'
        · rfl
        · exact absurd he (hlt _ _ hi')
      · rcases hget hi' with ⟨-, he⟩ | hi'
        · exact absurd he (hlt _ _ hi)
        · exact h.one id₁ id₂ i hi hi'
    · rcases hget hi with ⟨-, he⟩ | hi
      · exact absurd (he ▸ h.known.handlers x hx) (Nat.lt_irrefl _)
      · exact h.taken x hx id' hi
  | ignored => exact h
  | @taken m id k hm hget =>
    refine ⟨hk, fun id₁ id₂ i hi hi' => ?_, fun x hx id' hi => ?_, fun l l' x x' hl hl' he => ?_⟩
    · exact h.one id₁ id₂ i (Dict.of_get?_pop hi).2 (Dict.of_get?_pop hi').2
    · obtain ⟨hne, hi⟩ := Dict.of_get?_pop hi
      rcases List.mem_append.mp hx with hx | hx
      · exact h.taken x hx id' hi
      · rw [List.mem_singleton.mp hx] at hi
        exact hne (h.one id' id k hi hget)
    · rcases Members.of_append hl with hl | ⟨hlen, rfl⟩
      · rcases Members.of_append hl' with hl' | ⟨-, rfl⟩
        · exact h.apart l l' x x' hl hl' he
        · exact absurd (hget.trans (congrArg some he.symm))
            (h.taken x (List.mem_of_getElem? hl) id)
      · rcases Members.of_append hl' with hl' | ⟨hlen', -⟩
        · exact absurd (hget.trans (congrArg some he))
            (h.taken x' (List.mem_of_getElem? hl') id)
        · exact hlen.trans hlen'.symm
  | deserialized hj => exact h.of_le hk (fun _ _ hi => hi) fun _ _ => handler_of_set hj
  | interrupted hj => exact h.of_le hk (fun _ _ hi => hi) fun _ _ => handler_of_set hj
  | returned =>
    exact h.of_le hk (fun id i hi => (Dict.of_get?_pop hi).2) fun j x hx => ⟨x, hx, rfl⟩
  | onClose => exact h.of_le hk (fun _ _ hi => hi) fun j x hx => ⟨x, hx, rfl⟩
  | close => exact h.of_le hk (fun _ _ hi => hi) fun j x hx => ⟨x, hx, rfl⟩
  | cancelled => exact h.of_le hk (fun _ _ hi => hi) fun j x hx => ⟨x, hx, rfl⟩
  | removed =>
    exact h.of_le hk (fun id i hi => (Dict.of_get?_pop hi).2) fun j x hx => ⟨x, hx, rfl⟩

omit [DecidableEq Id] in
theorem timely_iff : Timely s ↔ ∀ (j : ℕ) (h : Handler Id B), s.handlers[j]? = some h →
    h.finished = false → ∀ f, s.made[h.future]? = some f → f.outcome = none := by
  constructor
  · intro ht j h hj hf f hget
    by_contra ho
    exact ht (.deserialized j) ⟨h, hj, hf, f, hget, ho⟩
  · rintro hp (_ | _ | j | _ | _ | _ | _ | _ | _) hl
    case deserialized =>
      obtain ⟨h, hj, hf, f, hget, ho⟩ := hl
      exact ho (hp j h hj hf f hget)
    all_goals exact hl

omit [DecidableEq Id] in
theorem Timely.of_le (h : Timely s)
    (hh : ∀ (j : ℕ) (x : Handler Id B), t.handlers[j]? = some x → x.finished = false →
      s.handlers[j]? = some x ∧ ∀ f, t.made[x.future]? = some f → f.outcome ≠ none →
        ∃ g, s.made[x.future]? = some g ∧ g.outcome ≠ none) : Timely t := by
  rw [timely_iff] at h ⊢
  intro j x hx hf f hget
  by_contra ho
  obtain ⟨hx', hm⟩ := hh j x hx hf
  obtain ⟨g, hg, hgo⟩ := hm f hget ho
  exact hgo (h j x hx' hf g hg)

omit [DecidableEq Id] in
theorem Timely.complete (h : Timely s)
    (hmade : t.made = s.made.modify k fun f => f.complete codec o)
    (hh : ∀ (j : ℕ) (x : Handler Id B), t.handlers[j]? = some x → x.finished = false →
      s.handlers[j]? = some x ∧ x.future ≠ k) : Timely t := by
  refine h.of_le fun j x hx hf => ?_
  obtain ⟨hx', hne⟩ := hh j x hx hf
  refine ⟨hx', fun f hget ho => ?_⟩
  rw [hmade] at hget
  obtain ⟨g, hg, ⟨he, -⟩ | ⟨-, rfl⟩⟩ := Members.of_modify hget
  · exact absurd he.symm hne
  · exact ⟨f, hg, ho⟩

theorem Timely.completeAll (h : Timely s) (hl : Linked s) : Timely (s.completeAll codec o) := by
  refine h.of_le fun j x hx hf => ⟨hx, fun f hget ho => ?_⟩
  obtain ⟨g, hg, rfl⟩ := getElem?_completeAll hget
  have hn : x.future ∉ s.futures.items.map Prod.snd := by
    intro hm
    obtain ⟨⟨id, i⟩, hi, he⟩ := List.mem_map.mp hm
    obtain rfl : i = x.future := he
    exact hl.taken x (List.mem_of_getElem? hx) id (Dict.mem_items_iff.mp hi)
  rw [if_neg hn] at ho
  exact ⟨g, hg, ho⟩

theorem timely_step (hl : Linked s) (h : Timely s) (hw : InWindow s a)
    (hs : step codec s a = some t) : Timely t := by
  cases step_cases hs with
  | call =>
    refine h.of_le fun j x hx hf => ⟨hx, fun f hget ho => ⟨f, ?_, ho⟩⟩
    have hlt := hl.known.handlers x (List.mem_of_getElem? hx)
    exact (List.getElem?_append_left hlt).symm.trans hget
  | ignored => exact h
  | @taken m id k hm hget =>
    rw [timely_iff] at h ⊢
    intro j x hx hf f hfut
    rcases Members.of_append hx with hx | ⟨-, rfl⟩
    · exact h j x hx hf f hfut
    · exact hw id hm k hget f hfut
  | @deserialized j k m hj =>
    refine h.complete rfl fun l x hx hf => ?_
    rcases Members.of_set hx with ⟨-, rfl⟩ | ⟨hne, hx⟩
    · cases hf
    · exact ⟨hx, fun he => hne (hl.apart l j x _ hx hj he)⟩
  | interrupted hj =>
    refine h.of_le fun l x hx hf => ?_
    rcases Members.of_set hx with ⟨-, rfl⟩ | ⟨-, hx⟩
    · cases hf
    · exact ⟨hx, fun f hget ho => ⟨f, hget, ho⟩⟩
  | @returned m id k hm hget =>
    refine h.complete rfl fun j x hx _ => ⟨hx, ?_⟩
    rintro rfl
    exact hl.taken x (List.mem_of_getElem? hx) id hget
  | onClose => exact h.completeAll hl
  | close => exact h.completeAll hl
  | cancelled => exact h.complete rfl fun j x hx hf => ⟨hx, hw x (List.mem_of_getElem? hx) hf⟩
  | @removed j f hf hd =>
    refine h.of_le fun l x hx _ => ⟨hx, fun f' hget ho => ?_⟩
    rcases Members.of_set hget with ⟨he, -⟩ | ⟨-, hget⟩
    · exact ⟨f, he ▸ hf, Option.isSome_iff_ne_none.mp hd.1⟩
    · exact ⟨f', hget, ho⟩

theorem inWindow_of_timely (hl : Linked s) (h : Timely t) (hs : step codec s a = some t) :
    InWindow s a := by
  rw [timely_iff] at h
  cases a with
  | resultMessage m =>
    intro id hm i hi f hf
    have hm : m.correlationId = some id := hm
    have hi : s.futures.get? id = some i := hi
    simp only [step, hm, hi] at hs
    obtain rfl := Option.some.inj hs
    have hnew : (s.handlers ++ [⟨i, m, false⟩])[s.handlers.length]? = some ⟨i, m, false⟩ :=
      List.getElem?_concat_length
    exact h s.handlers.length _ hnew rfl f hf
  | cancelled i =>
    intro x hx hf he
    obtain rfl := Option.some.inj hs
    obtain ⟨j, hj⟩ := List.getElem?_of_mem hx
    have hlt := hl.known.handlers x hx
    subst he
    have hdone : (s.complete codec x.future .cancelled).made[x.future]? =
        some ((s.made[x.future]).complete codec .cancelled) := by
      show (s.made.modify x.future fun f => f.complete codec .cancelled)[x.future]? = _
      rw [List.getElem?_modify, List.getElem?_eq_getElem hlt]
      simp
    exact Future.complete_done (by rintro v ⟨⟩) (h j x hj hf _ hdone)
  | _ => trivial

omit [DecidableEq Id] in
theorem fresh_timely : Timely (fresh : State Id B V) := by
  rw [timely_iff]
  rintro j h ⟨⟩

/-- No reply is late throughout a run if and only if every result message comes when its future
is not done, and no caller is cancelled while its reply is deserialised. -/
theorem late_replies_iff (as : List (Action Id B V)) :
    Transition.Throughout (step codec) Timely fresh as ↔
      Transition.EachStep (step codec) InWindow fresh as :=
  Transition.throughout_iff_eachStep (J := Linked)
    (fun _ _ _ hl _ hs _ => linked_step hl hs)
    (fun _ _ _ hl h hs =>
      ⟨fun ht => inWindow_of_timely hl ht hs, fun hw => timely_step hl h hw hs⟩)
    fresh_linked fresh_timely

/-- The caller gives up before its reply comes, or while it is deserialised. -/
theorem reply_to_cancelled_call : (∃ s : State ℕ ℕ ℕ,
    Transition.Run (step plain) (fun _ _ => True) fresh
      [.call 1, .cancelled 0, .resultMessage ⟨some 1, some "result", 5⟩] s ∧
      Late s (.deserialized 0)) ∧
    ∃ s : State ℕ ℕ ℕ, Transition.Run (step plain) (fun _ _ => True) fresh
      [.call 1, .resultMessage ⟨some 1, some "result", 5⟩, .cancelled 0] s ∧
      Late s (.deserialized 0) := by
  constructor
  · exact ⟨_, Transition.run_of_checked rfl, _, rfl, rfl, _, rfl, Option.some_ne_none _⟩
  · exact ⟨_, Transition.run_of_checked rfl, _, rfl, rfl, _, rfl, Option.some_ne_none _⟩

end AioPika.Rpc
