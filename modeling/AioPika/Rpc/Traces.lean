import AioPika.Rpc.Replies

/-! # What an RPC call leaves behind

A call lists its future before it serialises and publishes its message, and
only the handlers and the callback of the future take it off the list again. A
call that ends before it awaits its future leaves the entry there.
-/

namespace AioPika.Rpc

/-- Where a run of `call` is. -/
inductive CallerPc where
  /-- `await self.serialize_message(...)` -/
  | serializing
  /-- `await exchange.publish(...)` -/
  | publishing
  /-- `await future` -/
  | awaiting
  /-- It has returned or raised. -/
  | ended
  deriving DecidableEq, Repr

/-- An instance with its callers: the `i`-th of them has made the `i`-th future. -/
structure Callers (Id B V : Type*) where
  calls : State Id B V
  callers : List CallerPc

inductive CallersAction (Id B V : Type*) where
  /-- `create_future`, with the id that it makes. -/
  | call (correlationId : Id)
  | serialized (caller : ℕ)
  | published (caller : ℕ)
  /-- The message cannot be serialised or published, or the caller is cancelled there. -/
  | failed (caller : ℕ)
  /-- The caller is cancelled while it awaits its future, which is cancelled with it. -/
  | cancelled (caller : ℕ)
  /-- The caller goes on when its future is done. -/
  | resumed (caller : ℕ)
  /-- What the messages, the end of the channel, `close()` and the callbacks do. -/
  | calls (action : Action Id B V)

def Callers.fresh {Id B V : Type*} : Callers Id B V := ⟨Rpc.fresh, []⟩

variable {Id B V : Type*}

def Future.scheduled (f : Future Id V) : Bool := f.outcome.isSome && !f.removed

namespace Callers

def setPc (s : Callers Id B V) (i : ℕ) (pc : CallerPc) : Callers Id B V :=
  { s with callers := s.callers.set i pc }

variable [DecidableEq Id] (codec : Codec Id B V)

def step (s : Callers Id B V) : CallersAction Id B V → Option (Callers Id B V)
  | .call id =>
    if s.calls.Unused id then
      (Rpc.step codec s.calls (.call id)).map fun calls => ⟨calls, s.callers ++ [.serializing]⟩
    else none
  | .serialized i =>
    if s.callers[i]? = some .serializing then some (s.setPc i .publishing) else none
  | .published i => if s.callers[i]? = some .publishing then some (s.setPc i .awaiting) else none
  | .failed i =>
    if s.callers[i]? = some .serializing ∨ s.callers[i]? = some .publishing then
      some (s.setPc i .ended)
    else none
  | .cancelled i =>
    if s.callers[i]? = some .awaiting then
      (Rpc.step codec s.calls (.cancelled i)).map fun calls => { s with calls := calls }
    else none
  | .resumed i =>
    if s.callers[i]? = some .awaiting ∧ s.calls.made[i]?.any (·.outcome.isSome) = true then
      some (s.setPc i .ended)
    else none
  | .calls (.call _) => none
  | .calls (.cancelled _) => none
  | .calls a => (Rpc.step codec s.calls a).map fun calls => { s with calls := calls }

/-- The callbacks that are scheduled run: futures that are done are removed, and those who await
them go on. -/
def runCallbacks (s : Callers Id B V) : Callers Id B V where
  calls := { s.calls with
    futures := (s.calls.made.filter Future.scheduled).foldl
      (fun futures f => futures.pop f.correlationId) s.calls.futures
    made := s.calls.made.map fun f => { f with removed := f.removed || f.outcome.isSome } }
  callers := s.callers.mapIdx fun i pc =>
    if pc = .awaiting ∧ s.calls.made[i]?.any (·.outcome.isSome) = true then .ended else pc

inductive Step (s : Callers Id B V) : CallersAction Id B V → Callers Id B V → Prop
  | call {id : Id} (hu : s.calls.Unused id) :
      Step s (.call id)
        ⟨{ s.calls with
            futures := s.calls.futures.set id s.calls.made.length
            made := s.calls.made ++ [⟨id, none, false⟩] }, s.callers ++ [.serializing]⟩
  | serialized {i : ℕ} (hi : s.callers[i]? = some .serializing) :
      Step s (.serialized i) (s.setPc i .publishing)
  | published {i : ℕ} (hi : s.callers[i]? = some .publishing) :
      Step s (.published i) (s.setPc i .awaiting)
  | failed {i : ℕ} {pc : CallerPc} (hi : s.callers[i]? = some pc)
      (hpc : pc = .serializing ∨ pc = .publishing) : Step s (.failed i) (s.setPc i .ended)
  | cancelled {i : ℕ} (hi : s.callers[i]? = some .awaiting) :
      Step s (.cancelled i) { s with calls := s.calls.complete codec i .cancelled }
  | resumed {i : ℕ} {f : Future Id V} (hi : s.callers[i]? = some .awaiting)
      (hf : s.calls.made[i]? = some f) (hd : f.outcome ≠ none) :
      Step s (.resumed i) (s.setPc i .ended)
  | calls {a : Action Id B V} {calls : State Id B V} (ha : ∀ id, a ≠ .call id)
      (hc : ∀ i, a ≠ .cancelled i) (hs : Rpc.step codec s.calls a = some calls) :
      Step s (.calls a) { s with calls := calls }

variable {codec} in
theorem step_cases {s t : Callers Id B V} {a : CallersAction Id B V}
    (h : step codec s a = some t) : Step codec s a t := by
  cases a with
  | call id =>
    simp only [step] at h
    split at h
    · rename_i hu
      obtain ⟨calls, hs, rfl⟩ := Option.map_eq_some_iff.mp h
      obtain rfl := Option.some.inj hs
      exact .call hu
    · cases h
  | serialized i =>
    simp only [step] at h
    split at h
    · obtain rfl := Option.some.inj h
      exact .serialized ‹_›
    · cases h
  | published i =>
    simp only [step] at h
    split at h
    · obtain rfl := Option.some.inj h
      exact .published ‹_›
    · cases h
  | failed i =>
    simp only [step] at h
    split at h
    · rename_i hi
      obtain rfl := Option.some.inj h
      rcases hi with hi | hi
      · exact .failed hi (Or.inl rfl)
      · exact .failed hi (Or.inr rfl)
    · cases h
  | cancelled i =>
    simp only [step] at h
    split at h
    · obtain ⟨calls, hs, rfl⟩ := Option.map_eq_some_iff.mp h
      obtain rfl := Option.some.inj hs
      exact .cancelled ‹_›
    · cases h
  | resumed i =>
    simp only [step] at h
    split at h
    · rename_i hi
      obtain rfl := Option.some.inj h
      obtain ⟨f, hf, hd⟩ := (Option.any_eq_true _ _).mp hi.2
      exact .resumed hi.1 hf (Option.isSome_iff_ne_none.mp hd)
    · cases h
  | calls a =>
    cases a with
    | call id => cases h
    | cancelled i => cases h
    | _ =>
      simp only [step] at h
      obtain ⟨calls, hs, rfl⟩ := Option.map_eq_some_iff.mp h
      exact .calls (by rintro id ⟨⟩) (by rintro i ⟨⟩) hs

end Callers

/-- `on_result_message` deserialises the reply of the future. -/
def State.Replying (s : State Id B V) (i : ℕ) : Prop :=
  ∃ h ∈ s.handlers, h.finished = false ∧ h.future = i

section Property

variable [DecidableEq Id]

/-- The table holds the calls that are in progress, apart from those whose reply is being
deserialised, and nothing else. -/
structure Traceless (s : Callers Id B V) : Prop where
  ended : ∀ (i : ℕ) (f : Future Id V), s.callers[i]? = some .ended → s.calls.made[i]? = some f →
    s.calls.futures.get? f.correlationId = none
  held : ∀ (i : ℕ) (pc : CallerPc) (f : Future Id V), s.callers[i]? = some pc → pc ≠ .ended →
    s.calls.made[i]? = some f → ¬ s.calls.Replying i →
    s.calls.futures.get? f.correlationId = some i
  keys : ∀ id i, s.calls.futures.get? id = some i →
    ∃ f, s.calls.made[i]? = some f ∧ f.correlationId = id

/-- A future that is not done accepts the outcome. -/
def Codec.Accepts (codec : Codec Id B V) (o : Outcome V) : Prop :=
  ∀ v, o = .exception (.object v) → codec.isStopIteration v = false

/-- The call is over, or it awaits its future and that has the property. -/
def Callers.Awaits (s : Callers Id B V) (i : ℕ) (p : Future Id V → Prop) : Prop :=
  ∀ pc ∈ s.callers[i]?, pc = .ended ∨ pc = .awaiting ∧ ∀ f ∈ s.calls.made[i]?, p f

/-- A call ends before it awaits its future only while its reply is being deserialised, and what
completes a future or takes it from the table finds that the call is over, or awaits the future and
gets the outcome. -/
def Tidy (codec : Codec Id B V) (s : Callers Id B V) : CallersAction Id B V → Prop
  | .failed i => s.calls.Replying i
  | .calls (.deserialized j) => ∀ h ∈ s.calls.handlers[j]?, h.finished = false →
      s.Awaits h.future fun f => f.outcome ≠ none ∨ codec.Accepts (resultOutcome codec h.message)
  | .calls (.interrupted j) => ∀ h ∈ s.calls.handlers[j]?, h.finished = false →
      s.Awaits h.future fun f => f.outcome ≠ none
  | .calls (.messageReturned m) => ∀ id ∈ m.correlationId, ∀ i ∈ s.calls.futures.get? id,
      s.Awaits i fun _ => True
  | .calls (.onClose exc) => codec.Accepts (closeOutcome exc) →
      ∀ id i, s.calls.futures.get? id = some i → s.Awaits i fun _ => True
  | .calls .close => ∀ id i, s.calls.futures.get? id = some i → s.Awaits i fun _ => True
  | _ => True

end Property

/-- The entries of the table, and the futures that were removed from it. -/
structure Entries [DecidableEq Id] (s : State Id B V) : Prop where
  linked : Linked s
  distinct : ∀ (i j : ℕ) (f g : Future Id V), s.made[i]? = some f → s.made[j]? = some g →
    f.correlationId = g.correlationId → i = j
  keys : ∀ id i, s.futures.get? id = some i → ∃ f, s.made[i]? = some f ∧ f.correlationId = id
  removed : ∀ (i : ℕ) (f : Future Id V), s.made[i]? = some f → f.removed = true →
    f.outcome ≠ none ∧ s.futures.get? f.correlationId = none

section Table

variable {codec : Codec Id B V} {s t : State Id B V} {a : Action Id B V} {i j k : ℕ} {id : Id}
  {f : Future Id V} {o : Outcome V}

theorem Future.complete_removed : (f.complete codec o).removed = f.removed := by
  unfold Future.complete
  split
  · rfl
  · split <;> rfl
  · rfl

theorem Future.complete_done_iff :
    (f.complete codec o).outcome ≠ none ↔ f.outcome ≠ none ∨ codec.Accepts o := by
  unfold Future.complete
  split
  · rename_i hf
    simp [hf]
  · rename_i v hf
    by_cases hv : codec.isStopIteration v = true
    · simp [hf, hv, Codec.Accepts]
    · simp [hf, hv, Codec.Accepts]
  · rename_i hf hne
    have hacc : codec.Accepts _ := fun v he => absurd he (hne v)
    simp [hf, hacc]

/-- What a step other than a call leaves of a future. -/
def Outlives (g f : Future Id V) : Prop :=
  g.correlationId = f.correlationId ∧ (f.removed = true → g.removed = true) ∧
    (g.outcome ≠ none → f.outcome ≠ none)

theorem Outlives.refl : Outlives f f := ⟨rfl, id, id⟩

theorem Outlives.complete : Outlives f (f.complete codec o) :=
  ⟨Future.complete_id.symm, fun h => Future.complete_removed ▸ h,
    fun h => Future.complete_done_iff.mpr (Or.inl h)⟩

theorem outlives_modify (hm : t.made = s.made.modify k fun f => f.complete codec o)
    (hf : t.made[i]? = some f) : ∃ g, s.made[i]? = some g ∧ Outlives g f := by
  rw [hm] at hf
  obtain ⟨g, hg, ⟨-, rfl⟩ | ⟨-, rfl⟩⟩ := Members.of_modify hf
  · exact ⟨g, hg, .complete⟩
  · exact ⟨f, hg, .refl⟩

theorem outlives_completeAll (hf : (s.completeAll codec o).made[i]? = some f) :
    ∃ g, s.made[i]? = some g ∧ Outlives g f := by
  obtain ⟨g, hg, rfl⟩ := getElem?_completeAll hf
  refine ⟨g, hg, ?_⟩
  split
  · exact .complete
  · exact .refl

variable [DecidableEq Id]

theorem Entries.of_le (h : Entries s) (hl : Linked t)
    (hm : ∀ (i : ℕ) (f : Future Id V), t.made[i]? = some f → ∃ g, s.made[i]? = some g ∧
      Outlives g f)
    (hf : ∀ id i, t.futures.get? id = some i → s.futures.get? id = some i) : Entries t := by
  constructor
  · exact hl
  · intro i j f g hi hj he
    obtain ⟨f', hf', hid, -⟩ := hm i f hi
    obtain ⟨g', hg', hid', -⟩ := hm j g hj
    exact h.distinct i j f' g' hf' hg' (hid.trans (he.trans hid'.symm))
  · intro id i hi
    have hlt : i < t.made.length := hl.known.futures id i hi
    obtain ⟨g, hg, hid⟩ := h.keys id i (hf id i hi)
    obtain ⟨g', hg', hid', -⟩ := hm i _ (List.getElem?_eq_getElem hlt)
    obtain rfl : g' = g := Option.some.inj (hg'.symm.trans hg)
    exact ⟨_, List.getElem?_eq_getElem hlt, hid'.symm.trans hid⟩
  · intro i f hi hr
    obtain ⟨g, hg, hid, hrem, hdone⟩ := hm i f hi
    obtain ⟨ho, hnone⟩ := h.removed i g hg (hrem hr)
    refine ⟨hdone ho, ?_⟩
    by_contra hn
    obtain ⟨k, hk⟩ := Option.ne_none_iff_exists'.mp hn
    rw [← hid] at hk
    rw [hf _ k hk] at hnone
    cases hnone

theorem Entries.get?_eq (h : Entries s) (hf : s.made[i]? = some f)
    (hk : s.futures.get? f.correlationId = some k) : k = i := by
  obtain ⟨g, hg, hid⟩ := h.keys _ k hk
  exact h.distinct k i g f hg hf hid

theorem Entries.call (h : Entries s) (ha : s.Unused id)
    (hl : Linked { s with
      futures := s.futures.set id s.made.length
      made := s.made ++ [⟨id, none, false⟩] }) :
    Entries { s with
      futures := s.futures.set id s.made.length
      made := s.made ++ [⟨id, none, false⟩] } := by
  have hu : ∀ {i : ℕ} {f : Future Id V}, s.made[i]? = some f → f.correlationId ≠ id :=
    fun hf => ha _ (List.mem_of_getElem? hf)
  constructor
  · exact hl
  · intro i j f g hi hj he
    rcases Members.of_append hi with hi | ⟨hlen, rfl⟩
    · rcases Members.of_append hj with hj | ⟨-, rfl⟩
      · exact h.distinct i j f g hi hj he
      · exact absurd he (hu hi)
    · rcases Members.of_append hj with hj | ⟨hlen', -⟩
      · exact absurd he.symm (hu hj)
      · exact hlen.trans hlen'.symm
  · intro id' i hi
    by_cases he : id' = id
    · subst he
      rw [Dict.get?_set_self] at hi
      obtain rfl := Option.some.inj hi
      exact ⟨_, List.getElem?_concat_length, rfl⟩
    · rw [Dict.get?_set_ne he] at hi
      obtain ⟨f, hf, hid⟩ := h.keys id' i hi
      have hlt : i < s.made.length := (List.getElem?_eq_some_iff.mp hf).1
      exact ⟨f, (List.getElem?_append_left hlt).trans hf, hid⟩
  · intro i f hi hr
    rcases Members.of_append hi with hi | ⟨-, rfl⟩
    · obtain ⟨ho, hn⟩ := h.removed i f hi hr
      exact ⟨ho, (Dict.get?_set_ne (hu hi)).trans hn⟩
    · cases hr

theorem Entries.remove {g : Future Id V} (h : Entries s) (hg : s.made[j]? = some g)
    (hd : g.outcome ≠ none)
    (hl : Linked { s with
      futures := s.futures.pop g.correlationId
      made := s.made.set j { g with removed := true } }) :
    Entries { s with
      futures := s.futures.pop g.correlationId
      made := s.made.set j { g with removed := true } } := by
  constructor
  · exact hl
  · intro i k f f' hi hk he
    have hid : ∀ {i : ℕ} {f : Future Id V},
        (s.made.set j { g with removed := true })[i]? = some f →
          ∃ g', s.made[i]? = some g' ∧ g'.correlationId = f.correlationId := by
      intro i f hf
      rcases Members.of_set hf with ⟨rfl, rfl⟩ | ⟨-, hf⟩
      · exact ⟨g, hg, rfl⟩
      · exact ⟨f, hf, rfl⟩
    obtain ⟨x, hx, hxid⟩ := hid hi
    obtain ⟨y, hy, hyid⟩ := hid hk
    exact h.distinct i k x y hx hy (hxid.trans (he.trans hyid.symm))
  · intro id i hi
    obtain ⟨hne, hi⟩ := Dict.of_get?_pop hi
    obtain ⟨f, hf, hid⟩ := h.keys id i hi
    have hj : j ≠ i := by
      rintro rfl
      obtain rfl := Option.some.inj (hg.symm.trans hf)
      exact hne hid.symm
    exact ⟨f, (List.getElem?_set_ne hj).trans hf, hid⟩
  · intro i f hi hr
    rcases Members.of_set hi with ⟨rfl, rfl⟩ | ⟨-, hi⟩
    · exact ⟨hd, Dict.get?_pop_self⟩
    · obtain ⟨ho, hn⟩ := h.removed i f hi hr
      refine ⟨ho, ?_⟩
      rw [Dict.get?_pop, hn]
      split <;> rfl

theorem entries_step (h : Entries s) (ha : ∀ id, a = .call id → s.Unused id)
    (hs : step codec s a = some t) : Entries t := by
  have hl : Linked t := linked_step h.linked hs
  cases step_cases hs with
  | call => exact h.call (ha _ rfl) hl
  | ignored => exact h
  | taken =>
    exact h.of_le hl (fun i f hf => ⟨f, hf, .refl⟩) fun _ _ hi => (Dict.of_get?_pop hi).2
  | deserialized =>
    exact h.of_le hl (fun _ _ => outlives_modify rfl) fun _ _ hi => hi
  | interrupted => exact h.of_le hl (fun i f hf => ⟨f, hf, .refl⟩) fun _ _ hi => hi
  | returned =>
    exact h.of_le hl (fun _ _ => outlives_modify rfl)
      fun _ _ hi => (Dict.of_get?_pop hi).2
  | onClose =>
    exact h.of_le hl (fun _ _ => outlives_completeAll) fun _ _ hi => hi
  | close =>
    exact h.of_le hl (fun _ _ => outlives_completeAll) fun _ _ hi => hi
  | cancelled =>
    exact h.of_le hl (fun _ _ => outlives_modify rfl) fun _ _ hi => hi
  | removed hg hd => exact h.remove hg (Option.isSome_iff_ne_none.mp hd.1) hl

end Table

section Tracking

/-- Whether a call may be there with its future done, in the table, or about to be completed. -/
def CallerPc.Accounts (pc : CallerPc) (done listed replying : Prop) : Prop :=
  match pc with
  | .ended => listed → done
  | .awaiting => done ∨ replying ∨ listed
  | _ => replying ∨ listed ∧ ¬ done

variable [DecidableEq Id]

def State.Listed (s : State Id B V) (i : ℕ) : Prop := ∃ id, s.futures.get? id = some i

/-- The call is in the table as long as it has to be. -/
def Callers.Tracked (s : Callers Id B V) (i : ℕ) : Prop :=
  ∀ pc, s.callers[i]? = some pc → ∀ f, s.calls.made[i]? = some f →
    pc.Accounts (f.outcome ≠ none) (s.calls.Listed i) (s.calls.Replying i)

variable {s : Callers Id B V} {i : ℕ} {pc : CallerPc} {f : Future Id V}

theorem Entries.listed_iff (h : Entries s.calls) (hf : s.calls.made[i]? = some f) :
    s.calls.Listed i ↔ s.calls.futures.get? f.correlationId = some i := by
  constructor
  · rintro ⟨id, hi⟩
    obtain ⟨g, hg, hid⟩ := h.keys id i hi
    obtain rfl := Option.some.inj (hg.symm.trans hf)
    rw [hid]
    exact hi
  · exact fun hi => ⟨_, hi⟩

theorem get?_runCallbacks (h : Entries s.calls) (hf : s.calls.made[i]? = some f) :
    s.runCallbacks.calls.futures.get? f.correlationId =
      if f.outcome = none then s.calls.futures.get? f.correlationId else none := by
  have hfold : s.runCallbacks.calls.futures.get? f.correlationId = _ := Dict.get?_foldl_pop
  rw [hfold]
  by_cases ho : f.outcome = none
  · have hn : f.correlationId ∉
        (s.calls.made.filter Future.scheduled).map Future.correlationId := by
      intro hm
      obtain ⟨g, hg, hid⟩ := List.mem_map.mp hm
      obtain ⟨hg, hscheduled⟩ := List.mem_filter.mp hg
      obtain ⟨j, hj⟩ := List.getElem?_of_mem hg
      obtain rfl := h.distinct j i g f hj hf hid
      obtain rfl := Option.some.inj (hj.symm.trans hf)
      simp [Future.scheduled, ho] at hscheduled
    rw [if_neg hn, if_pos ho]
  · rw [if_neg ho]
    split
    · rfl
    · rename_i hn
      have hr : f.removed = true := by
        by_contra hr
        refine hn (List.mem_map.mpr ⟨f, List.mem_filter.mpr ⟨List.mem_of_getElem? hf, ?_⟩, rfl⟩)
        simp [Future.scheduled, Option.isSome_iff_ne_none, ho, Bool.eq_false_iff.mpr hr]
      exact (h.removed i f hf hr).2

theorem callers_runCallbacks (hi : s.callers[i]? = some pc) (hf : s.calls.made[i]? = some f) :
    s.runCallbacks.callers[i]? =
      some (if pc = .awaiting ∧ f.outcome ≠ none then .ended else pc) := by
  simp [Callers.runCallbacks, hi, hf, Option.isSome_iff_ne_none]

theorem made_runCallbacks :
    s.runCallbacks.calls.made[i]? =
      s.calls.made[i]?.map fun f => { f with removed := f.removed || f.outcome.isSome } :=
  List.getElem?_map

/-- The calls and futures after the callbacks, from those before. -/
theorem of_runCallbacks (hlen : s.callers.length = s.calls.made.length)
    (hi : s.runCallbacks.callers[i]? = some pc) (hf : s.runCallbacks.calls.made[i]? = some f) :
    ∃ pc' f', s.callers[i]? = some pc' ∧ s.calls.made[i]? = some f' ∧
      f'.correlationId = f.correlationId ∧
      pc = if pc' = .awaiting ∧ f'.outcome ≠ none then .ended else pc' := by
  rw [made_runCallbacks] at hf
  obtain ⟨f', hf', rfl⟩ := Option.map_eq_some_iff.mp hf
  have hlt : i < s.callers.length := hlen ▸ (List.getElem?_eq_some_iff.mp hf').1
  have hi' := callers_runCallbacks (List.getElem?_eq_getElem hlt) hf'
  rw [hi] at hi'
  exact ⟨_, f', List.getElem?_eq_getElem hlt, hf', rfl, Option.some.inj hi'⟩

theorem tracked_of_traceless (h : Entries s.calls) (ht : Traceless s.runCallbacks) :
    s.Tracked i := by
  intro pc hi f hf
  have hget := get?_runCallbacks h hf
  have hcaller := callers_runCallbacks hi hf
  have hmade : s.runCallbacks.calls.made[i]? = some _ :=
    made_runCallbacks.trans (congrArg _ hf)
  -- a call that is still in progress is held by the table
  have hheld : ¬ (pc = .awaiting ∧ f.outcome ≠ none) → pc ≠ .ended → ¬ s.calls.Replying i →
      f.outcome = none ∧ s.calls.Listed i := by
    intro hn hpc hr
    rw [if_neg hn] at hcaller
    have hh := ht.held i pc _ hcaller hpc hmade hr
    rw [hget] at hh
    split at hh
    · exact ⟨‹_›, _, hh⟩
    · cases hh
  have hin : pc = .serializing ∨ pc = .publishing →
      s.calls.Replying i ∨ s.calls.Listed i ∧ ¬ f.outcome ≠ none := by
    intro hpc
    by_cases hr : s.calls.Replying i
    · exact Or.inl hr
    · obtain ⟨ho, hl⟩ := hheld (by rcases hpc with rfl | rfl <;> simp)
        (by rcases hpc with rfl | rfl <;> simp) hr
      exact Or.inr ⟨hl, not_not_intro ho⟩
  cases pc with
  | serializing => exact hin (Or.inl rfl)
  | publishing => exact hin (Or.inr rfl)
  | awaiting =>
    by_cases ho : f.outcome = none
    · by_cases hr : s.calls.Replying i
      · exact Or.inr (Or.inl hr)
      · exact Or.inr (Or.inr (hheld (by simp [ho]) (by simp) hr).2)
    · exact Or.inl ho
  | ended =>
    intro hl ho
    have hn := ht.ended i _ hcaller hmade
    rw [hget, if_pos ho, (h.listed_iff hf).mp hl] at hn
    cases hn

theorem traceless_of_tracked (h : Entries s.calls) (hlen : s.callers.length = s.calls.made.length)
    (ht : ∀ i, s.Tracked i) : Traceless s.runCallbacks := by
  constructor
  · intro i f hi hf
    obtain ⟨pc, g, hpc, hg, hid, he⟩ := of_runCallbacks hlen hi hf
    have htr := ht i pc hpc g hg
    rw [← hid, get?_runCallbacks h hg]
    split
    · rename_i ho
      rw [if_neg (by simp [ho])] at he
      subst he
      by_contra hn
      obtain ⟨k, hk⟩ := Option.ne_none_iff_exists'.mp hn
      obtain rfl := h.get?_eq hg hk
      exact htr ⟨_, hk⟩ ho
    · rfl
  · intro i pc f hi hpc hf hr
    obtain ⟨pc', g, hpc', hg, hid, he⟩ := of_runCallbacks hlen hi hf
    have htr := ht i pc' hpc' g hg
    have hr : ¬ s.calls.Replying i := hr
    have hn : ¬ (pc' = .awaiting ∧ g.outcome ≠ none) := by
      intro hd
      rw [if_pos hd] at he
      exact hpc he
    rw [if_neg hn] at he
    subst he
    have hin : s.calls.Listed i ∧ g.outcome = none := by
      cases pc with
      | ended => exact absurd rfl hpc
      | awaiting =>
        have ho : g.outcome = none := by
          by_contra ho
          exact hn ⟨rfl, ho⟩
        rcases htr with hd | hr' | hl
        · exact absurd ho hd
        · exact absurd hr' hr
        · exact ⟨hl, ho⟩
      | _ => exact (htr.resolve_left hr).imp_right not_not.mp
    rw [← hid, get?_runCallbacks h hg, if_pos hin.2]
    exact (h.listed_iff hg).mp hin.1
  · intro id i hi
    have hfold : s.runCallbacks.calls.futures.get? id = _ := Dict.get?_foldl_pop
    rw [hfold] at hi
    split at hi
    · cases hi
    · obtain ⟨f, hf, hid⟩ := h.keys id i hi
      exact ⟨_, made_runCallbacks.trans (congrArg _ hf), hid⟩

/-- The table holds the calls in progress after the scheduled callbacks have run if and only if
every call is in the table as long as it has to be. -/
theorem traceless_iff (h : Entries s.calls)
    (hlen : s.callers.length = s.calls.made.length) :
    Traceless s.runCallbacks ↔ ∀ i, s.Tracked i :=
  ⟨fun ht _ => tracked_of_traceless h ht, traceless_of_tracked h hlen⟩

end Tracking

section Steps

variable {codec : Codec Id B V}

theorem tracked_iff_of_ne {t : Callers Id B V} {k : ℕ} [DecidableEq Id]
    (h : ∀ i, i ≠ k → t.Tracked i) : (∀ i, t.Tracked i) ↔ t.Tracked k := by
  constructor
  · exact fun ht => ht k
  · intro hk i
    by_cases hi : i = k
    · exact hi ▸ hk
    · exact h i hi

variable [DecidableEq Id] {s t : State Id B V} {pcs pcs' : List CallerPc} {i j k : ℕ} {id : Id}
  {m : Message Id B} {o : Outcome V}

theorem Callers.Tracked.same (h : Callers.Tracked ⟨s, pcs⟩ i) (hpc : pcs'[i]? = pcs[i]?)
    (hm : ∀ f, t.made[i]? = some f → ∃ g, s.made[i]? = some g ∧
      (g.outcome = none ↔ f.outcome = none))
    (hl : t.Listed i ↔ s.Listed i) (hr : t.Replying i ↔ s.Replying i) :
    Callers.Tracked ⟨t, pcs'⟩ i := by
  intro pc hi f hf
  obtain ⟨g, hg, ho⟩ := hm f hf
  have hs := h pc (hpc.symm.trans hi) g hg
  have ho : (f.outcome ≠ none) = (g.outcome ≠ none) := propext (not_congr ho).symm
  have hl : t.Listed i = s.Listed i := propext hl
  have hr : t.Replying i = s.Replying i := propext hr
  rw [ho]
  show pc.Accounts _ (t.Listed i) (t.Replying i)
  rw [hl, hr]
  exact hs

theorem listed_pop_iff (hid : ∀ id', s.futures.get? id' = some k → id' = id)
    (hk : ∀ i, s.futures.get? id = some i → i = k) :
    (∃ id', (s.futures.pop id).get? id' = some i) ↔ i ≠ k ∧ s.Listed i := by
  constructor
  · rintro ⟨id', hi⟩
    obtain ⟨hne, hi⟩ := Dict.of_get?_pop hi
    refine ⟨?_, id', hi⟩
    rintro rfl
    exact hne (hid id' hi)
  · rintro ⟨hne, id', hi⟩
    refine ⟨id', (Dict.get?_pop_ne ?_).trans hi⟩
    rintro rfl
    exact hne (hk i hi)

theorem listed_pop (h : Linked s) (hk : s.futures.get? id = some k) :
    (∃ id', (s.futures.pop id).get? id' = some i) ↔ i ≠ k ∧ s.Listed i :=
  listed_pop_iff (fun id' hi => h.one id' id k hi hk) fun _ hi => Option.some.inj (hi.symm.trans hk)

theorem listed_pop_removed {g : Future Id V} (h : Entries s) (hg : s.made[k]? = some g) :
    (∃ id', (s.futures.pop g.correlationId).get? id' = some i) ↔ i ≠ k ∧ s.Listed i := by
  apply listed_pop_iff
  · intro id' hi
    obtain ⟨f, hf, rfl⟩ := h.keys id' k hi
    obtain rfl := Option.some.inj (hg.symm.trans hf)
    rfl
  · exact fun i hi => h.get?_eq hg hi

omit [DecidableEq Id] in
theorem replying_append :
    (∃ h ∈ s.handlers ++ [⟨k, m, false⟩], h.finished = false ∧ h.future = i) ↔
      i = k ∨ s.Replying i := by
  constructor
  · rintro ⟨h, hm, hf, rfl⟩
    rcases List.mem_append.mp hm with hm | hm
    · exact Or.inr ⟨h, hm, hf, rfl⟩
    · rw [List.mem_singleton.mp hm]
      exact Or.inl rfl
  · rintro (rfl | ⟨h, hm, hf, rfl⟩)
    · exact ⟨_, List.mem_append_right _ (List.mem_singleton_self _), rfl, rfl⟩
    · exact ⟨h, List.mem_append_left _ hm, hf, rfl⟩

theorem replying_set (h : Linked s) (hj : s.handlers[j]? = some ⟨k, m, false⟩) :
    (∃ x ∈ s.handlers.set j ⟨k, m, true⟩, x.finished = false ∧ x.future = i) ↔
      i ≠ k ∧ s.Replying i := by
  constructor
  · rintro ⟨x, hx, hf, rfl⟩
    obtain ⟨l, hl⟩ := List.getElem?_of_mem hx
    rcases Members.of_set hl with ⟨-, rfl⟩ | ⟨hne, hl⟩
    · cases hf
    · refine ⟨fun he => hne (h.apart l j x _ hl hj he), x, List.mem_of_getElem? hl, hf, rfl⟩
  · rintro ⟨hne, x, hx, hf, rfl⟩
    obtain ⟨l, hl⟩ := List.getElem?_of_mem hx
    have hlj : j ≠ l := by
      rintro rfl
      obtain rfl := Option.some.inj (hj.symm.trans hl)
      exact hne rfl
    exact ⟨x, List.mem_of_getElem? ((List.getElem?_set_ne hlj).trans hl), hf, rfl⟩

theorem Linked.not_listed (h : Linked s) (hr : s.Replying i) : ¬ s.Listed i := by
  rintro ⟨id, hi⟩
  obtain ⟨x, hx, -, rfl⟩ := hr
  exact h.taken x hx id hi

theorem CallerPc.accounts_iff {pc : CallerPc} {done listed replying : Prop} (hl : ¬ listed)
    (hr : ¬ replying) :
    pc.Accounts done listed replying ↔ pc = .ended ∨ pc = .awaiting ∧ done := by
  cases pc <;> simp [CallerPc.Accounts, hl, hr]

theorem CallerPc.accounts_of_done {pc : CallerPc} {done listed replying : Prop} (hd : done)
    (hr : ¬ replying) :
    pc.Accounts done listed replying ↔ pc = .ended ∨ pc = .awaiting ∧ True := by
  cases pc <;> simp [CallerPc.Accounts, hd, hr]

omit [DecidableEq Id] in
theorem Callers.awaits_iff {p : Future Id V → Prop} {f : Future Id V} (hf : s.made[i]? = some f) :
    Callers.Awaits ⟨s, pcs⟩ i p ↔
      ∀ pc, pcs[i]? = some pc → pc = .ended ∨ pc = .awaiting ∧ p f := by
  constructor
  · intro h pc hi
    exact (h pc hi).imp_right fun hp => ⟨hp.1, hp.2 f hf⟩
  · intro h pc hi
    refine (h pc hi).imp_right fun hp => ⟨hp.1, fun g hg => ?_⟩
    obtain rfl := Option.some.inj (hf.symm.trans hg)
    exact hp.2

theorem Callers.tracked_iff {f : Future Id V} (hf : s.made[i]? = some f) :
    Callers.Tracked ⟨s, pcs⟩ i ↔
      ∀ pc, pcs[i]? = some pc → pc.Accounts (f.outcome ≠ none) (s.Listed i) (s.Replying i) := by
  constructor
  · exact fun h pc hi => h pc hi f hf
  · intro h pc hi g hg
    obtain rfl := Option.some.inj (hf.symm.trans hg)
    exact h pc hi

theorem Callers.tracked_iff_awaits {p : Future Id V → Prop} {f g : Future Id V}
    (hl : ¬ t.Listed i) (hr : ¬ t.Replying i) (hf : s.made[i]? = some f)
    (hg : t.made[i]? = some g) (hp : g.outcome ≠ none ↔ p f) :
    Callers.Tracked ⟨t, pcs⟩ i ↔ Callers.Awaits ⟨s, pcs⟩ i p := by
  rw [Callers.tracked_iff hg, Callers.awaits_iff hf]
  refine forall_congr' fun pc => imp_congr_right fun _ => ?_
  rw [CallerPc.accounts_iff hl hr, hp]

theorem tracked_finished_iff (made : List (Future Id V)) {p : Future Id V → Prop}
    (h : Linked s) (hP : ∀ i, Callers.Tracked ⟨s, pcs⟩ i)
    (hj : s.handlers[j]? = some ⟨k, m, false⟩) (hm : ∀ i, i ≠ k → made[i]? = s.made[i]?)
    (hk : ∀ f, s.made[k]? = some f → ∃ g, made[k]? = some g ∧ (g.outcome ≠ none ↔ p f)) :
    (∀ i, Callers.Tracked ⟨⟨s.futures, made, s.handlers.set j ⟨k, m, true⟩⟩, pcs⟩ i) ↔
      Callers.Awaits ⟨s, pcs⟩ k p := by
  have hmem := List.mem_of_getElem? hj
  have hlisted : ¬ s.Listed k := h.not_listed ⟨_, hmem, rfl, rfl⟩
  have hset {i : ℕ} := replying_set (i := i) h hj
  rw [tracked_iff_of_ne (k := k)]
  · have hf := List.getElem?_eq_getElem (h.known.handlers _ hmem)
    obtain ⟨g, hg, hp⟩ := hk _ hf
    exact Callers.tracked_iff_awaits hlisted (fun hr => (hset.mp hr).1 rfl) hf hg hp
  · intro i hi
    refine (hP i).same rfl (fun f hf => ⟨f, (hm i hi).symm.trans hf, Iff.rfl⟩) Iff.rfl ?_
    exact hset.trans (and_iff_right hi)

theorem tracked_returned_iff (h : Linked s) (hP : ∀ i, Callers.Tracked ⟨s, pcs⟩ i)
    (hk : s.futures.get? id = some k) :
    (∀ i, Callers.Tracked
      ⟨State.complete codec { s with futures := s.futures.pop id } k returnedOutcome, pcs⟩ i) ↔
      Callers.Awaits ⟨s, pcs⟩ k fun _ => True := by
  have hpop {i : ℕ} := listed_pop (i := i) h hk
  rw [tracked_iff_of_ne (k := k)]
  · have hf := List.getElem?_eq_getElem (h.known.futures id k hk)
    have hg : (s.made.modify k fun f => f.complete codec returnedOutcome)[k]? = some _ :=
      (List.getElem?_modify_eq _ _ _).trans (congrArg _ hf)
    refine Callers.tracked_iff_awaits (fun hl => (hpop.mp hl).1 rfl)
      (fun hr => h.not_listed hr ⟨id, hk⟩) hf hg (iff_of_true ?_ trivial)
    exact Future.complete_done (by rintro v ⟨⟩)
  · intro i hi
    refine (hP i).same rfl (fun f hf => ⟨f, ?_, Iff.rfl⟩) (hpop.trans (and_iff_right hi)) Iff.rfl
    exact (List.getElem?_modify_ne _ _ (Ne.symm hi)).symm.trans hf

theorem tracked_completeAll (h : Linked s) (hP : Callers.Tracked ⟨s, pcs⟩ i) :
    Callers.Tracked ⟨s.completeAll codec o, pcs⟩ i ↔
      (codec.Accepts o → s.Listed i → Callers.Awaits ⟨s, pcs⟩ i fun _ => True) := by
  have hitems : i ∈ s.futures.items.map Prod.snd ↔ s.Listed i := by
    simp [State.Listed, Dict.mem_items_iff]
  by_cases hl : s.Listed i
  · obtain ⟨id, hi⟩ := hl
    have hl : s.Listed i := ⟨id, hi⟩
    obtain ⟨f, hf⟩ : ∃ f, s.made[i]? = some f :=
      ⟨_, List.getElem?_eq_getElem (h.known.futures id i hi)⟩
    have hg : (s.completeAll codec o).made[i]? = some (f.complete codec o) := by
      simp [State.completeAll, hf, hitems.mpr hl]
    have hiff : (f.complete codec o).outcome ≠ none ↔ f.outcome ≠ none ∨ codec.Accepts o :=
      Future.complete_done_iff
    by_cases hacc : codec.Accepts o
    · have hdone := hiff.mpr (Or.inr hacc)
      rw [Callers.tracked_iff hg, imp_iff_right hacc, imp_iff_right hl, Callers.awaits_iff hf]
      refine forall_congr' fun pc => imp_congr_right fun _ => ?_
      exact CallerPc.accounts_of_done hdone fun hr => h.not_listed hr hl
    · refine iff_of_true (hP.same rfl (fun f hf' => ?_) Iff.rfl Iff.rfl) fun ha => absurd ha hacc
      obtain rfl := Option.some.inj (hg.symm.trans hf')
      exact ⟨f, hf, not_iff_not.mp (hiff.trans (or_iff_left hacc)).symm⟩
  · refine iff_of_true (hP.same rfl (fun f hf => ?_) Iff.rfl Iff.rfl) fun _ hi => absurd hi hl
    obtain ⟨g, hg, rfl⟩ := getElem?_completeAll hf
    rw [if_neg (fun hm => hl (hitems.mp hm))]
    exact ⟨g, hg, Iff.rfl⟩

theorem tracked_completeAll_iff (h : Linked s) (hP : ∀ i, Callers.Tracked ⟨s, pcs⟩ i) :
    (∀ i, Callers.Tracked ⟨s.completeAll codec o, pcs⟩ i) ↔
      (codec.Accepts o → ∀ id i, s.futures.get? id = some i →
        Callers.Awaits ⟨s, pcs⟩ i fun _ => True) := by
  constructor
  · exact fun ht hacc id i hi => (tracked_completeAll h (hP i)).mp (ht i) hacc ⟨id, hi⟩
  · intro ht i
    rw [tracked_completeAll h (hP i)]
    rintro hacc ⟨id, hi⟩
    exact ht hacc id i hi

theorem deserialized_cases (hs : Rpc.step codec s (.deserialized j) = some t) :
    ∃ k m, s.handlers[j]? = some ⟨k, m, false⟩ ∧
      t = State.complete codec { s with handlers := s.handlers.set j ⟨k, m, true⟩ } k
        (resultOutcome codec m) := by
  simp only [Rpc.step] at hs
  split at hs
  · rename_i k m hj
    exact ⟨k, m, hj, (Option.some.inj hs).symm⟩
  · cases hs

theorem interrupted_cases (hs : Rpc.step codec s (.interrupted j) = some t) :
    ∃ k m, s.handlers[j]? = some ⟨k, m, false⟩ ∧
      t = { s with handlers := s.handlers.set j ⟨k, m, true⟩ } := by
  simp only [Rpc.step] at hs
  split at hs
  · rename_i k m hj
    exact ⟨k, m, hj, (Option.some.inj hs).symm⟩
  · cases hs

theorem tracked_taken (h : Linked s) (hP : ∀ i, Callers.Tracked ⟨s, pcs⟩ i)
    (hk : s.futures.get? id = some k) :
    Callers.Tracked ⟨{ s with
      futures := s.futures.pop id
      handlers := s.handlers ++ [⟨k, m, false⟩] }, pcs⟩ i := by
  have hpop {i : ℕ} := listed_pop (i := i) h hk
  by_cases hi : i = k
  · subst hi
    have hn : ¬ ∃ id', (s.futures.pop id).get? id' = some i := fun hx => (hpop.mp hx).1 rfl
    have hr : ∃ h ∈ s.handlers ++ [⟨i, m, false⟩], h.finished = false ∧ h.future = i :=
      replying_append.mpr (Or.inl rfl)
    intro pc _ f _
    cases pc with
    | ended => exact fun hx => absurd hx hn
    | awaiting => exact Or.inr (Or.inl hr)
    | _ => exact Or.inl hr
  · exact (hP i).same rfl (fun f hf => ⟨f, hf, Iff.rfl⟩) (hpop.trans (and_iff_right hi))
      (replying_append.trans (or_iff_right hi))

theorem tracked_removed {g : Future Id V} (h : Entries s) (hP : ∀ i, Callers.Tracked ⟨s, pcs⟩ i)
    (hg : s.made[j]? = some g) (hd : g.outcome ≠ none) :
    Callers.Tracked ⟨{ s with
      futures := s.futures.pop g.correlationId
      made := s.made.set j { g with removed := true } }, pcs⟩ i := by
  have hpop {i : ℕ} := listed_pop_removed (i := i) h hg
  by_cases hi : i = j
  · subst hi
    have hn : ¬ ∃ id, (s.futures.pop g.correlationId).get? id = some i :=
      fun hx => (hpop.mp hx).1 rfl
    intro pc hpc f hf
    have htr := hP i pc hpc g hg
    obtain ⟨-, rfl⟩ | ⟨hne, -⟩ := Members.of_set hf
    · cases pc with
      | ended => exact fun hx => absurd hx hn
      | awaiting => exact Or.inl hd
      | _ => exact Or.inl (htr.resolve_right fun hx => hx.2 hd)
    · exact absurd rfl hne
  · refine (hP i).same rfl (fun f hf => ?_) (hpop.trans (and_iff_right hi)) Iff.rfl
    obtain ⟨he, -⟩ | ⟨-, hf⟩ := Members.of_set hf
    · exact absurd he hi
    · exact ⟨f, hf, Iff.rfl⟩

theorem tracked_calls_iff {a : Action Id B V} (h : Entries s)
    (hP : ∀ i, Callers.Tracked ⟨s, pcs⟩ i) (ha : ∀ id, a ≠ .call id) (hc : ∀ i, a ≠ .cancelled i)
    (hs : Rpc.step codec s a = some t) :
    (∀ i, Callers.Tracked ⟨t, pcs⟩ i) ↔ Tidy codec ⟨s, pcs⟩ (.calls a) := by
  have hl := h.linked
  cases a with
  | call id => exact absurd rfl (ha id)
  | cancelled i => exact absurd rfl (hc i)
  | resultMessage m =>
    cases step_cases hs with
    | ignored => exact iff_of_true hP trivial
    | taken hm hk => exact iff_of_true (fun _ => tracked_taken hl hP hk) trivial
  | deserialized j =>
    obtain ⟨k, m, hj, rfl⟩ := deserialized_cases hs
    have hiff := tracked_finished_iff (s.made.modify k fun f => f.complete codec
      (resultOutcome codec m)) hl hP hj (fun i hi => List.getElem?_modify_ne _ _ (Ne.symm hi))
      fun f hf => ⟨_, (List.getElem?_modify_eq _ _ _).trans (congrArg _ hf),
        Future.complete_done_iff⟩
    refine hiff.trans ⟨fun hw h' hj' _ => ?_, fun hw => hw _ hj rfl⟩
    obtain rfl := Option.some.inj (hj.symm.trans hj')
    exact hw
  | interrupted j =>
    obtain ⟨k, m, hj, rfl⟩ := interrupted_cases hs
    have hiff := tracked_finished_iff s.made hl hP hj (fun i _ => rfl) fun f hf => ⟨f, hf, Iff.rfl⟩
    refine hiff.trans ⟨fun hw h' hj' _ => ?_, fun hw => hw _ hj rfl⟩
    obtain rfl := Option.some.inj (hj.symm.trans hj')
    exact hw
  | messageReturned m =>
    cases step_cases hs with
    | ignored hn =>
      refine iff_of_true hP fun id hm i hi => ?_
      have hm : m.correlationId = some id := hm
      have hnone := hn id (by simp [Action.arrivals, hm])
      exact absurd (hnone.symm.trans hi) (by simp)
    | @returned m id k hm hk =>
      refine (tracked_returned_iff hl hP hk).trans ⟨fun hw id' hm' i hi => ?_, fun hw => ?_⟩
      · obtain rfl := Option.some.inj (hm.symm.trans hm')
        obtain rfl := Option.some.inj (hk.symm.trans hi)
        exact hw
      · exact hw id hm k hk
  | onClose exc =>
    obtain rfl := Option.some.inj hs
    exact tracked_completeAll_iff hl hP
  | close =>
    obtain rfl := Option.some.inj hs
    refine (tracked_completeAll_iff hl hP).trans (imp_iff_right ?_)
    rintro v ⟨⟩
  | removed j =>
    cases step_cases hs with
    | ignored => exact iff_of_true hP trivial
    | removed hg hd =>
      exact iff_of_true (fun _ => tracked_removed h hP hg (Option.isSome_iff_ne_none.mp hd.1))
        trivial

theorem tracked_setPc_iff {pc pc' : CallerPc} (hP : ∀ i, Callers.Tracked ⟨s, pcs⟩ i)
    (hi : pcs[k]? = some pc) {f : Future Id V} (hf : s.made[k]? = some f) :
    (∀ i, Callers.Tracked ⟨s, pcs.set k pc'⟩ i) ↔
      pc'.Accounts (f.outcome ≠ none) (s.Listed k) (s.Replying k) := by
  rw [tracked_iff_of_ne (k := k), Callers.tracked_iff hf]
  · have hlt : k < pcs.length := (List.getElem?_eq_some_iff.mp hi).1
    rw [List.getElem?_set_self hlt]
    constructor
    · exact fun h => h pc' rfl
    · intro h x hx
      exact Option.some.inj hx ▸ h
  · intro i hne
    exact (hP i).same (List.getElem?_set_ne (Ne.symm hne)) (fun f hf => ⟨f, hf, Iff.rfl⟩) Iff.rfl
      Iff.rfl

theorem tracked_call {x : Callers Id B V} (h : Entries x.calls)
    (hlen : x.callers.length = x.calls.made.length) (hP : ∀ i, x.Tracked i)
    (hu : x.calls.Unused id) :
    Callers.Tracked ⟨{ x.calls with
      futures := x.calls.futures.set id x.calls.made.length
      made := x.calls.made ++ [⟨id, none, false⟩] }, x.callers ++ [.serializing]⟩ i := by
  by_cases hi : i = x.calls.made.length
  · subst hi
    intro pc hpc f hf
    rcases Members.of_append hpc with hpc | ⟨-, rfl⟩
    · have hlt := (List.getElem?_eq_some_iff.mp hpc).1
      exact absurd (hlen ▸ hlt) (Nat.lt_irrefl _)
    rcases Members.of_append hf with hf | ⟨-, rfl⟩
    · exact absurd (List.getElem?_eq_some_iff.mp hf).1 (Nat.lt_irrefl _)
    exact Or.inr ⟨⟨id, Dict.get?_set_self⟩, not_not_intro rfl⟩
  · refine (hP i).same (Members.get_append_ne (hlen ▸ hi)) (fun f hf => ?_) ?_ Iff.rfl
    · rcases Members.of_append hf with hf | ⟨he, -⟩
      · exact ⟨f, hf, Iff.rfl⟩
      · exact absurd he hi
    · refine exists_congr fun id' => ?_
      show (x.calls.futures.set id x.calls.made.length).get? id' = some i ↔ _
      rw [Dict.get?_set]
      split
      · rename_i he
        refine iff_of_false (fun hn => hi (Option.some.inj hn).symm) fun hn => ?_
        obtain ⟨f, hf, hid⟩ := h.keys id' i hn
        exact hu f (List.mem_of_getElem? hf) (hid.trans he)
      · exact Iff.rfl

theorem tracked_cancelled (hP : ∀ i, Callers.Tracked ⟨s, pcs⟩ i) (hk : pcs[k]? = some .awaiting) :
    Callers.Tracked ⟨s.complete codec k .cancelled, pcs⟩ i := by
  by_cases hi : i = k
  · subst hi
    intro pc hpc f hf
    obtain rfl := Option.some.inj (hk.symm.trans hpc)
    obtain ⟨g, -, ⟨-, rfl⟩ | ⟨hne, -⟩⟩ := Members.of_modify hf
    · exact Or.inl (Future.complete_done (by rintro v ⟨⟩))
    · exact absurd rfl hne
  · refine (hP i).same rfl (fun f hf => ⟨f, ?_, Iff.rfl⟩) Iff.rfl Iff.rfl
    exact (List.getElem?_modify_ne _ _ (Ne.symm hi)).symm.trans hf

/-- The steps that keep every call tracked. -/
theorem tracked_step_iff {x y : Callers Id B V} {a : CallersAction Id B V}
    (h : Entries x.calls) (hlen : x.callers.length = x.calls.made.length)
    (hP : ∀ i, x.Tracked i) (hs : x.step codec a = some y) :
    (∀ i, y.Tracked i) ↔ Tidy codec x a := by
  have hfuture : ∀ {i : ℕ} {pc : CallerPc}, x.callers[i]? = some pc →
      ∃ f, x.calls.made[i]? = some f := by
    intro i pc hi
    have hlt : i < x.calls.made.length := hlen ▸ (List.getElem?_eq_some_iff.mp hi).1
    exact ⟨_, List.getElem?_eq_getElem hlt⟩
  cases Callers.step_cases hs with
  | call hu => exact iff_of_true (fun _ => tracked_call h hlen hP hu) trivial
  | @serialized i hi =>
    obtain ⟨f, hf⟩ := hfuture hi
    exact iff_of_true ((tracked_setPc_iff hP hi hf).mpr (hP i _ hi f hf)) trivial
  | @published i hi =>
    obtain ⟨f, hf⟩ := hfuture hi
    refine iff_of_true ((tracked_setPc_iff hP hi hf).mpr ?_) trivial
    have htr := hP i _ hi f hf
    rcases htr with hr | ⟨hl, -⟩
    · exact Or.inr (Or.inl hr)
    · exact Or.inr (Or.inr hl)
  | @failed i pc hi hpc =>
    obtain ⟨f, hf⟩ := hfuture hi
    apply (tracked_setPc_iff hP hi hf).trans
    have htr := hP i _ hi f hf
    have hin : x.calls.Replying i ∨ x.calls.Listed i ∧ ¬ f.outcome ≠ none := by
      rcases hpc with rfl | rfl <;> exact htr
    constructor
    · intro hover
      exact hin.resolve_right fun hx => hx.2 (hover hx.1)
    · exact fun hr hl => absurd hl (h.linked.not_listed hr)
  | cancelled hi => exact iff_of_true (fun _ => tracked_cancelled hP hi) trivial
  | @resumed i f hi hf hd =>
    exact iff_of_true ((tracked_setPc_iff hP hi hf).mpr fun _ => hd) trivial
  | calls ha hc hstep => exact tracked_calls_iff h hP ha hc hstep

def Callers.Aligned (s : Callers Id B V) : Prop :=
  Entries s.calls ∧ s.callers.length = s.calls.made.length

theorem fresh_aligned : (Callers.fresh : Callers Id B V).Aligned := by
  refine ⟨⟨fresh_linked, ?_, ?_, ?_⟩, rfl⟩
  · rintro i j f g ⟨⟩
  · rintro id i ⟨⟩
  · rintro i f ⟨⟩

theorem aligned_step {x y : Callers Id B V} {a : CallersAction Id B V} (h : x.Aligned)
    (hs : x.step codec a = some y) : y.Aligned := by
  obtain ⟨hc, hlen⟩ := h
  have hset : ∀ {i : ℕ} {pc : CallerPc}, (x.setPc i pc).Aligned :=
    ⟨hc, List.length_set.trans hlen⟩
  cases Callers.step_cases hs with
  | @call id hu =>
    have hcall : Rpc.step codec x.calls (.call id) = some _ := rfl
    refine ⟨entries_step hc (fun id' he => Action.call.inj he ▸ hu) hcall, ?_⟩
    simp [hlen]
  | serialized => exact hset
  | published => exact hset
  | failed => exact hset
  | resumed => exact hset
  | @cancelled i =>
    have hcancelled : Rpc.step codec x.calls (.cancelled i) = some _ := rfl
    exact ⟨entries_step hc (by rintro id ⟨⟩) hcancelled, hlen.trans complete_length.symm⟩
  | calls ha _ hstep =>
    have hk : Kept x.calls _ := kept_step hstep ha
    exact ⟨entries_step hc (fun id he => absurd he (ha id)) hstep, hlen.trans hk.length.symm⟩

/-- After the scheduled callbacks, the table holds the calls in progress throughout a run if and
only if every step of the run is tidy. -/
theorem calls_leave_no_trace_iff (as : List (CallersAction Id B V)) :
    Transition.Throughout (Callers.step codec) (fun s => Traceless s.runCallbacks)
        Callers.fresh as ↔
      Transition.EachStep (Callers.step codec) (Tidy codec) Callers.fresh as := by
  refine Transition.throughout_iff_eachStep (J := Callers.Aligned)
    (fun s a t h _ hs _ => aligned_step h hs) (fun s a t h hs hstep => ?_) fresh_aligned ?_
  · have ht : t.Aligned := aligned_step h hstep
    rw [traceless_iff h.1 h.2] at hs
    rw [traceless_iff ht.1 ht.2]
    exact tracked_step_iff h.1 h.2 hs hstep
  · rw [traceless_iff fresh_aligned.1 fresh_aligned.2]
    rintro i pc ⟨⟩

/-- The arguments of a call cannot be serialised, or the message is not published. -/
theorem failed_call_listed : (∃ s : Callers ℕ ℕ ℕ,
    Transition.Run (Callers.step plain) (fun _ _ => True) Callers.fresh [.call 1, .failed 0] s ∧
      ¬ Traceless s.runCallbacks) ∧
    ∃ s : Callers ℕ ℕ ℕ, Transition.Run (Callers.step plain) (fun _ _ => True) Callers.fresh
      [.call 1, .serialized 0, .failed 0] s ∧ ¬ Traceless s.runCallbacks := by
  constructor
  · refine ⟨_, Transition.run_of_checked rfl, fun h => ?_⟩
    cases h.ended 0 _ rfl rfl
  · refine ⟨_, Transition.run_of_checked rfl, fun h => ?_⟩
    cases h.ended 0 _ rfl rfl

end Steps

end AioPika.Rpc
