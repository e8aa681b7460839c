import AioPika.Foundation.Members
import AioPika.Rpc.Client

/-! # Closing an RPC instance

`close()` cancels the result consumer, unbinds the result queue, fails the futures
in the table and deletes the queue. What is made while it awaits the deletion, or
has been taken out of the table by a result message, it does not reach.
-/

namespace AioPika.Rpc

/-- Where a call of `close()` is. -/
inductive CloserPc where
  /-- `await self.result_queue.cancel(...)` -/
  | cancelling
  /-- `await self.result_queue.unbind(...)` -/
  | unbinding
  /-- `await self.result_queue.delete()` -/
  | deleting
  /-- It has returned when so many futures had been made. -/
  | closed (made : ℕ)
  /-- `AttributeError` -/
  | raised
  deriving DecidableEq, Repr

structure Instance (Id B V : Type*) where
  calls : State Id B V
  /-- `result_queue` is there. -/
  opened : Bool
  /-- `result_consumer_tag` is there. -/
  consuming : Bool
  /-- How many futures had been made when `close()` failed those in the table. -/
  failed : ℕ
  closers : List CloserPc

inductive InstanceAction (Id B V : Type*) where
  /-- What happens to the calls, other than by `close()`. -/
  | calls (action : Action Id B V)
  | close
  | cancelled (closer : ℕ)
  | unbound (closer : ℕ)
  | deleted (closer : ℕ)

def Instance.fresh {Id B V : Type*} : Instance Id B V := ⟨Rpc.fresh, true, true, 0, []⟩

variable {Id B V : Type*} [DecidableEq Id] (codec : Codec Id B V)

/-- No future was made with this id: `uuid.uuid4()` does not make an id twice. -/
def State.Unused (s : State Id B V) (id : Id) : Prop := ∀ f ∈ s.made, f.correlationId ≠ id

instance (s : State Id B V) (id : Id) : Decidable (s.Unused id) :=
  inferInstanceAs (Decidable (∀ f ∈ s.made, f.correlationId ≠ id))

namespace Instance

def setPc (s : Instance Id B V) (i : ℕ) (pc : CloserPc) : Instance Id B V :=
  { s with closers := s.closers.set i pc }

def step (s : Instance Id B V) : InstanceAction Id B V → Option (Instance Id B V)
  | .calls .close => none
  | .calls (.call id) =>
    if s.calls.Unused id then
      (Rpc.step codec s.calls (.call id)).map fun calls => { s with calls := calls }
    else none
  | .calls a => (Rpc.step codec s.calls a).map fun calls => { s with calls := calls }
  | .close =>
    if s.opened then
      if s.consuming then some { s with closers := s.closers ++ [.cancelling] }
      else some { s with closers := s.closers ++ [.raised] }
    else some { s with closers := s.closers ++ [.closed s.calls.made.length] }
  | .cancelled i =>
    match s.closers[i]? with
    | some .cancelling =>
      if s.consuming then some (setPc { s with consuming := false } i .unbinding)
      else some (s.setPc i .raised)
    | _ => none
  | .unbound i =>
    match s.closers[i]? with
    | some .unbinding =>
      (Rpc.step codec s.calls .close).map fun calls =>
        setPc { s with calls := calls, failed := calls.made.length } i .deleting
    | _ => none
  | .deleted i =>
    match s.closers[i]? with
    | some .deleting =>
      if s.opened then some (setPc { s with opened := false } i (.closed s.calls.made.length))
      else some (s.setPc i .raised)
    | _ => none

inductive Step (s : Instance Id B V) : InstanceAction Id B V → Instance Id B V → Prop
  | call {id : Id} (hu : s.calls.Unused id) :
      Step s (.calls (.call id))
        { s with calls := { s.calls with
          futures := s.calls.futures.set id s.calls.made.length
          made := s.calls.made ++ [⟨id, none, false⟩] } }
  | calls {a : Action Id B V} {calls : State Id B V} (ha : ∀ id, a ≠ .call id)
      (hs : Rpc.step codec s.calls a = some calls) : Step s (.calls a) { s with calls := calls }
  | close (ho : s.opened = true) (hc : s.consuming = true) :
      Step s .close { s with closers := s.closers ++ [.cancelling] }
  | closeRaised (ho : s.opened = true) (hc : s.consuming = false) :
      Step s .close { s with closers := s.closers ++ [.raised] }
  | closedAlready (ho : s.opened = false) :
      Step s .close { s with closers := s.closers ++ [.closed s.calls.made.length] }
  | cancelled {i : ℕ} (hi : s.closers[i]? = some .cancelling) (hc : s.consuming = true) :
      Step s (.cancelled i) (setPc { s with consuming := false } i .unbinding)
  | cancelRaised {i : ℕ} (hi : s.closers[i]? = some .cancelling) (hc : s.consuming = false) :
      Step s (.cancelled i) (s.setPc i .raised)
  | unbound {i : ℕ} {calls : State Id B V} (hi : s.closers[i]? = some .unbinding)
      (hs : Rpc.step codec s.calls .close = some calls) :
      Step s (.unbound i)
        (setPc { s with calls := calls, failed := calls.made.length } i .deleting)
  | deleted {i : ℕ} (hi : s.closers[i]? = some .deleting) (ho : s.opened = true) :
      Step s (.deleted i) (setPc { s with opened := false } i (.closed s.calls.made.length))
  | deleteRaised {i : ℕ} (hi : s.closers[i]? = some .deleting) (ho : s.opened = false) :
      Step s (.deleted i) (s.setPc i .raised)

variable {codec} in
theorem step_cases {s t : Instance Id B V} {a : InstanceAction Id B V}
    (h : step codec s a = some t) : Step codec s a t := by
  cases a with
  | calls a =>
    cases a with
    | close => cases h
    | call id =>
      simp only [step] at h
      split at h
      · rename_i hu
        obtain ⟨calls, hs, rfl⟩ := Option.map_eq_some_iff.mp h
        obtain rfl := Option.some.inj hs
        exact .call hu
      · cases h
    | _ =>
      simp only [step] at h
      obtain ⟨calls, hs, rfl⟩ := Option.map_eq_some_iff.mp h
      exact .calls (by rintro id ⟨⟩) hs
  | close =>
    simp only [step] at h
    split at h
    · rename_i ho
      split at h
      · rename_i hc
        obtain rfl := Option.some.inj h
        exact .close ho hc
      · rename_i hc
        obtain rfl := Option.some.inj h
        exact .closeRaised ho ((Bool.not_eq_true _).mp hc)
    · rename_i ho
      obtain rfl := Option.some.inj h
      exact .closedAlready ((Bool.not_eq_true _).mp ho)
  | cancelled i =>
    simp only [step] at h
    split at h
    · rename_i hi
      split at h
      · rename_i hc
        obtain rfl := Option.some.inj h
        exact .cancelled hi hc
      · rename_i hc
        obtain rfl := Option.some.inj h
        exact .cancelRaised hi ((Bool.not_eq_true _).mp hc)
    · cases h
  | unbound i =>
    simp only [step] at h
    split at h
    · rename_i hi
      obtain ⟨calls, hs, rfl⟩ := Option.map_eq_some_iff.mp h
      exact .unbound hi hs
    · cases h
  | deleted i =>
    simp only [step] at h
    split at h
    · rename_i hi
      split at h
      · rename_i ho
        obtain rfl := Option.some.inj h
        exact .deleted hi ho
      · rename_i ho
        obtain rfl := Option.some.inj h
        exact .deleteRaised hi ((Bool.not_eq_true _).mp ho)
    · cases h

end Instance

/-- Every future that was made before a `close()` has returned is done. -/
def NobodyLeft (s : Instance Id B V) : Prop :=
  ∀ n, .closed n ∈ s.closers → ∀ i < n, ∀ f ∈ s.calls.made[i]?, f.outcome.isSome = true

/-- No call was started since `close()` failed the futures, and the futures that result messages
have taken are done. -/
def Undisturbed (s : Instance Id B V) : Prop :=
  s.calls.made.length = s.failed ∧
    ∀ h ∈ s.calls.handlers, ∀ f ∈ s.calls.made[h.future]?, f.outcome.isSome = true

instance : DecidablePred fun s : Instance Id B V => Undisturbed s := fun s =>
  inferInstanceAs (Decidable (s.calls.made.length = s.failed ∧
    ∀ h ∈ s.calls.handlers, ∀ f ∈ s.calls.made[h.future]?, f.outcome.isSome = true))

/-- `close()` returns undisturbed. -/
def Quietly (s : Instance Id B V) : InstanceAction Id B V → Prop
  | .close => s.opened = false → Undisturbed s
  | .deleted _ => s.opened = true → Undisturbed s
  | _ => True

instance (s : Instance Id B V) : DecidablePred (Quietly s)
  | .close => inferInstanceAs (Decidable (s.opened = false → Undisturbed s))
  | .deleted _ => inferInstanceAs (Decidable (s.opened = true → Undisturbed s))
  | .calls _ | .cancelled _ | .unbound _ => .isTrue trivial

/-- A result message has taken the future. -/
def State.Handled (s : State Id B V) (i : ℕ) : Prop := ∃ h ∈ s.handlers, h.future = i

/-- A future that is pending can be found. -/
structure Accounted (s : State Id B V) : Prop where
  distinct : ∀ (i j : ℕ) (f g : Future Id V), s.made[i]? = some f → s.made[j]? = some g →
    f.correlationId = g.correlationId → i = j
  listed : ∀ (i : ℕ) (f : Future Id V), s.made[i]? = some f → f.outcome = none →
    s.futures.get? f.correlationId = some i ∨ s.Handled i

/-- What most steps keep: a future that is pending was pending before, and its handlers stay. -/
structure Kept (s t : State Id B V) : Prop where
  length : t.made.length = s.made.length
  pending : ∀ (i : ℕ) (f : Future Id V), t.made[i]? = some f → ∃ g, s.made[i]? = some g ∧
    g.correlationId = f.correlationId ∧ (f.outcome = none → g.outcome = none)
  handled : ∀ i, s.Handled i → t.Handled i

variable {codec} {s t : State Id B V} {a : Action Id B V} {i : ℕ} {id : Id} {f : Future Id V}
  {o : Outcome V}

section Futures

omit [DecidableEq Id]

theorem Future.pending_of_complete (h : (f.complete codec o).outcome = none) :
    f.outcome = none := by
  have hc : (f.complete codec o).outcome = f.outcome ∨ f.outcome = none ∧ _ :=
    Future.complete_outcome
  rcases hc with he | ⟨hn, -⟩
  · rw [← he, h]
  · exact hn

theorem Future.complete_done (ho : ∀ v, o ≠ .exception (.object v)) :
    (f.complete codec o).outcome ≠ none := by
  unfold Future.complete
  split
  · rename_i hf
    rw [hf]
    exact Option.some_ne_none _
  · exact absurd rfl (ho _)
  · exact Option.some_ne_none _

theorem Kept.refl : Kept s s where
  length := rfl
  pending _ f hf := ⟨f, hf, rfl, id⟩
  handled _ h := h

theorem Kept.complete {j : ℕ} (hm : t.made = s.made.modify j fun f => f.complete codec o)
    (hh : ∀ i, s.Handled i → t.Handled i) : Kept s t := by
  constructor
  · rw [hm]
    exact List.length_modify _ _ _
  · intro i f hf
    rw [hm] at hf
    obtain ⟨g, hg, ⟨-, rfl⟩ | ⟨-, rfl⟩⟩ := Members.of_modify hf
    · exact ⟨g, hg, Future.complete_id.symm, Future.pending_of_complete⟩
    · exact ⟨f, hg, rfl, id⟩
  · exact hh

theorem getElem?_completeAll (hf : (s.completeAll codec o).made[i]? = some f) :
    ∃ g, s.made[i]? = some g ∧
      f = if i ∈ s.futures.items.map Prod.snd then g.complete codec o else g := by
  have hf : (s.made.mapIdx fun i f =>
      if i ∈ s.futures.items.map Prod.snd then f.complete codec o else f)[i]? = some f := hf
  rw [List.getElem?_mapIdx] at hf
  obtain ⟨g, hg, he⟩ := Option.map_eq_some_iff.mp hf
  exact ⟨g, hg, he.symm⟩

theorem Kept.completeAll : Kept s (s.completeAll codec o) := by
  constructor
  · exact completeAll_length
  · intro i f hf
    obtain ⟨g, hg, rfl⟩ := getElem?_completeAll hf
    refine ⟨g, hg, ?_⟩
    split
    · exact ⟨Future.complete_id.symm, Future.pending_of_complete⟩
    · exact ⟨rfl, id⟩
  · exact fun i h => h

theorem handled_of_set {j k : ℕ} {m : Message Id B} {finished finished' : Bool}
    (hj : s.handlers[j]? = some ⟨k, m, finished⟩)
    (hh : t.handlers = s.handlers.set j ⟨k, m, finished'⟩) (h : s.Handled i) : t.Handled i := by
  unfold State.Handled
  rw [hh]
  exact Members.exists_set h hj id

end Futures

theorem Accounted.of_kept (h : Accounted s) (hk : Kept s t)
    (hl : ∀ (i : ℕ) (f : Future Id V), t.made[i]? = some f → f.outcome = none →
      s.futures.get? f.correlationId = some i →
      t.futures.get? f.correlationId = some i ∨ t.Handled i) : Accounted t := by
  constructor
  · intro i j f g hi hj he
    obtain ⟨f', hf', hid, -⟩ := hk.pending i f hi
    obtain ⟨g', hg', hid', -⟩ := hk.pending j g hj
    exact h.distinct i j f' g' hf' hg' (hid.trans (he.trans hid'.symm))
  · intro i f hi ho
    obtain ⟨f', hf', hid, hpending⟩ := hk.pending i f hi
    rcases h.listed i f' hf' (hpending ho) with hget | hh
    · rw [hid] at hget
      exact hl i f hi ho hget
    · exact Or.inr (hk.handled i hh)

theorem kept_step (hs : step codec s a = some t) (ha : ∀ id, a ≠ .call id) : Kept s t := by
  cases step_cases hs with
  | call => exact absurd rfl (ha _)
  | ignored => exact Kept.refl
  | taken =>
    exact ⟨rfl, fun i f hf => ⟨f, hf, rfl, id⟩, fun i hh => Members.exists_append hh⟩
  | deserialized hj => exact Kept.complete rfl fun i => handled_of_set hj rfl
  | interrupted hj =>
    exact ⟨rfl, fun i f hf => ⟨f, hf, rfl, id⟩, fun i => handled_of_set hj rfl⟩
  | returned => exact Kept.complete rfl fun i hh => hh
  | onClose => exact Kept.completeAll
  | close => exact Kept.completeAll
  | cancelled => exact Kept.complete rfl fun i hh => hh
  | @removed j g hg hd =>
    refine ⟨List.length_set, fun i f hf => ?_, fun i hh => hh⟩
    rcases Members.of_set hf with ⟨rfl, rfl⟩ | ⟨-, hf⟩
    · exact ⟨g, hg, rfl, id⟩
    · exact ⟨f, hf, rfl, id⟩

theorem accounted_step (h : Accounted s) (hs : step codec s a = some t)
    (ha : ∀ id, a ≠ .call id) : Accounted t := by
  have hk : Kept s t := kept_step hs ha
  cases step_cases hs with
  | call => exact absurd rfl (ha _)
  | ignored => exact h
  | @taken m id k hm hget =>
    refine h.of_kept hk fun i f hf ho hi => ?_
    by_cases he : id = f.correlationId
    · subst he
      obtain rfl := Option.some.inj (hget.symm.trans hi)
      exact Or.inr ⟨_, List.mem_append_right _ (List.mem_singleton_self _), rfl⟩
    · exact Or.inl ((Dict.get?_pop_ne (Ne.symm he)).trans hi)
  | @returned m id k hm hget =>
    refine h.of_kept hk fun i f hf ho hi => ?_
    by_cases he : id = f.correlationId
    · subst he
      obtain rfl := Option.some.inj (hget.symm.trans hi)
      have hf : (s.made.modify k fun f => f.complete codec returnedOutcome)[k]? = some f := hf
      obtain ⟨g, -, ⟨-, rfl⟩ | ⟨hne, -⟩⟩ := Members.of_modify hf
      · exact absurd ho (Future.complete_done (by rintro v ⟨⟩))
      · exact absurd rfl hne
    · exact Or.inl ((Dict.get?_pop_ne (Ne.symm he)).trans hi)
  | @removed j g hg hd =>
    refine h.of_kept hk fun i f hf ho hi => ?_
    have hne : g.correlationId ≠ f.correlationId := by
      intro he
      obtain ⟨f', hf', hid, hpending⟩ := hk.pending i f hf
      obtain rfl : i = j := h.distinct i j f' g hf' hg (hid.trans he.symm)
      obtain rfl := Option.some.inj (hf'.symm.trans hg)
      rw [hpending ho] at hd
      cases hd.1
    exact Or.inl ((Dict.get?_pop_ne hne.symm).trans hi)
  | deserialized | interrupted | onClose | close | cancelled =>
    exact h.of_kept hk fun i f hf ho hi => Or.inl hi

theorem Accounted.call (h : Accounted s) (hu : s.Unused id) :
    Accounted { s with
      futures := s.futures.set id s.made.length
      made := s.made ++ [⟨id, none, false⟩] } := by
  have hne : ∀ {i : ℕ} {f : Future Id V}, s.made[i]? = some f → f.correlationId ≠ id :=
    fun hf => hu _ (List.mem_of_getElem? hf)
  constructor
  · intro i j f g hi hj he
    rcases Members.of_append hi with hi | ⟨rfl, rfl⟩
    · rcases Members.of_append hj with hj | ⟨-, rfl⟩
      · exact h.distinct i j f g hi hj he
      · exact absurd he (hne hi)
    · rcases Members.of_append hj with hj | ⟨rfl, -⟩
      · exact absurd he.symm (hne hj)
      · rfl
  · intro i f hi ho
    rcases Members.of_append hi with hi | ⟨rfl, rfl⟩
    · exact (h.listed i f hi ho).imp_left (Dict.get?_set_ne (hne hi)).trans
    · exact Or.inl Dict.get?_set_self

theorem Accounted.failed (h : Accounted s) (hs : step codec s .close = some t) {i : ℕ}
    {f : Future Id V} (hf : t.made[i]? = some f) (ho : f.outcome = none) : t.Handled i := by
  obtain rfl := Option.some.inj hs
  obtain ⟨g, hg, rfl⟩ := getElem?_completeAll hf
  split at ho
  · exact absurd ho (Future.complete_done (by rintro v ⟨⟩))
  · rename_i hn
    rcases h.listed i g hg ho with hget | hh
    · exact absurd (List.mem_map.mpr ⟨_, Dict.mem_items_iff.mpr hget, rfl⟩) hn
    · exact hh

/-- A future that `close()` has failed is done, or a result message has taken it; all futures that
were made before a `close()` has returned are done. -/
structure Settling (s : Instance Id B V) : Prop where
  accounted : Accounted s.calls
  made : s.failed ≤ s.calls.made.length
  failed : ∀ i < s.failed, ∀ f ∈ s.calls.made[i]?, f.outcome = none → s.calls.Handled i
  bound : ∀ n, .closed n ∈ s.closers → n ≤ s.calls.made.length
  nobody : NobodyLeft s

variable {x y : Instance Id B V} {b : InstanceAction Id B V} {pc : CloserPc}

theorem fresh_settling : Settling (Instance.fresh : Instance Id B V) := by
  refine ⟨⟨?_, ?_⟩, Nat.le_refl 0, ?_, ?_, ?_⟩
  · rintro i j f g ⟨⟩
  · rintro i f ⟨⟩
  · rintro i hi
    cases hi
  · rintro n ⟨⟩
  · rintro n ⟨⟩

theorem Settling.calls (h : Settling x) (ha : Accounted t)
    (hlen : x.calls.made.length ≤ t.made.length)
    (hp : ∀ i < x.calls.made.length, ∀ f ∈ t.made[i]?, ∃ g ∈ x.calls.made[i]?,
      f.outcome = none → g.outcome = none)
    (hh : ∀ i, x.calls.Handled i → t.Handled i) : Settling { x with calls := t } := by
  constructor
  · exact ha
  · exact Nat.le_trans h.made hlen
  · intro i hi f hf ho
    obtain ⟨g, hg, hgo⟩ := hp i (Nat.lt_of_lt_of_le hi h.made) f hf
    exact hh i (h.failed i hi g hg (hgo ho))
  · exact fun n hn => Nat.le_trans (h.bound n hn) hlen
  · intro n hn i hi f hf
    obtain ⟨g, hg, hgo⟩ := hp i (Nat.lt_of_lt_of_le hi (h.bound n hn)) f hf
    have hdone := h.nobody n hn i hi g hg
    rw [Option.isSome_iff_ne_none] at hdone ⊢
    exact fun ho => hdone (hgo ho)

theorem Settling.kept (h : Settling x) (ha : Accounted t) (hk : Kept x.calls t) :
    Settling { x with calls := t } := by
  refine h.calls ha (Nat.le_of_eq hk.length.symm) (fun i _ f hf => ?_) hk.handled
  obtain ⟨g, hg, -, ho⟩ := hk.pending i f hf
  exact ⟨g, hg, ho⟩

theorem Settling.move (h : Settling x) (hcalls : y.calls = x.calls) (hfailed : y.failed = x.failed)
    (hc : ∀ n, .closed n ∈ y.closers → .closed n ∈ x.closers) : Settling y := by
  constructor
  · exact hcalls ▸ h.accounted
  · exact hcalls ▸ hfailed ▸ h.made
  · exact hcalls ▸ hfailed ▸ h.failed
  · exact fun n hn => hcalls ▸ h.bound n (hc n hn)
  · exact fun n hn => hcalls ▸ h.nobody n (hc n hn)

theorem closed_of_set {pcs : List CloserPc} {i n : ℕ} (h : .closed n ∈ pcs.set i pc)
    (hpc : pc ≠ .closed n) : .closed n ∈ pcs :=
  (List.mem_or_eq_of_mem_set h).resolve_right hpc.symm

theorem closed_of_append {pcs : List CloserPc} {n : ℕ} (h : .closed n ∈ pcs ++ [pc])
    (hpc : pc ≠ .closed n) : .closed n ∈ pcs :=
  (List.mem_append.mp h).resolve_right fun hm => hpc (List.mem_singleton.mp hm).symm

theorem Settling.closed (h : Settling x) (hu : Undisturbed x) (hcalls : y.calls = x.calls)
    (hfailed : y.failed = x.failed)
    (hc : ∀ n, .closed n ∈ y.closers → .closed n ∈ x.closers ∨ n = x.calls.made.length) :
    Settling y := by
  constructor
  · exact hcalls ▸ h.accounted
  · exact hcalls ▸ hfailed ▸ h.made
  · exact hcalls ▸ hfailed ▸ h.failed
  · intro n hn
    rw [hcalls]
    rcases hc n hn with hn | rfl
    · exact h.bound n hn
    · exact Nat.le_refl _
  · intro n hn i hi f hf
    rw [hcalls] at hf
    rcases hc n hn with hn | rfl
    · exact h.nobody n hn i hi f hf
    · -- who is pending has been taken by a result message, and those are done
      by_contra ho
      have ho : f.outcome = none := Option.not_isSome_iff_eq_none.mp ho
      obtain ⟨handler, hm, rfl⟩ := h.failed i (hu.1 ▸ hi) f hf ho
      have hdone := hu.2 handler hm f hf
      rw [ho] at hdone
      cases hdone

theorem settling_step (h : Settling x) (hq : Quietly x b) (hb : x.step codec b = some y) :
    Settling y := by
  cases Instance.step_cases hb with
  | @call id hu =>
    refine h.calls (h.accounted.call hu) ?_ (fun i hi f hf => ?_) fun i hh => hh
    · simp
    · exact ⟨f, (List.getElem?_append_left hi).symm.trans hf, fun ho => ho⟩
  | calls ha hs => exact h.kept (accounted_step h.accounted hs ha) (kept_step hs ha)
  | close => exact h.move rfl rfl fun n hn => closed_of_append hn (by rintro ⟨⟩)
  | closeRaised => exact h.move rfl rfl fun n hn => closed_of_append hn (by rintro ⟨⟩)
  | closedAlready ho =>
    refine h.closed (hq ho) rfl rfl fun n hn => ?_
    exact (List.mem_append.mp hn).imp_right fun hn => CloserPc.closed.inj (List.mem_singleton.mp hn)
  | cancelled => exact h.move rfl rfl fun n hn => closed_of_set hn (by rintro ⟨⟩)
  | cancelRaised => exact h.move rfl rfl fun n hn => closed_of_set hn (by rintro ⟨⟩)
  | @unbound i calls hi hs =>
    have ha : Accounted calls := accounted_step h.accounted hs (by rintro id ⟨⟩)
    have hk := h.kept ha (kept_step hs (by rintro id ⟨⟩))
    constructor
    · exact ha
    · exact Nat.le_refl _
    · exact fun j _ f hf ho => h.accounted.failed hs hf ho
    · exact fun n hn => hk.bound n (closed_of_set hn (by rintro ⟨⟩))
    · exact fun n hn => hk.nobody n (closed_of_set hn (by rintro ⟨⟩))
  | deleted hi ho =>
    refine h.closed (hq ho) rfl rfl fun n hn => ?_
    exact (List.mem_or_eq_of_mem_set hn).imp_right CloserPc.closed.inj
  | deleteRaised => exact h.move rfl rfl fun n hn => closed_of_set hn (by rintro ⟨⟩)

/-- Once a `close()` has returned, every future that was made before is done. -/
theorem close_leaves_nobody
    (hr : Transition.Reach (· = Instance.fresh) (Instance.step codec) Quietly x) :
    NobodyLeft x := by
  have h : Settling x := by
    refine hr.invariant (fun x hx => ?_) fun x b y hi hq hs => settling_step hi hq hs
    rw [hx]
    exact fresh_settling
  exact h.nobody

/-- A call is started when `close()` awaits the unbind. -/
def closingInTime : List (InstanceAction ℕ ℕ ℕ) :=
  [.calls (.call 1), .close, .cancelled 0, .calls (.call 2), .unbound 0, .deleted 0]

theorem closed_undisturbed : ∃ x : Instance ℕ ℕ ℕ,
    Transition.Run (Instance.step plain) Quietly Instance.fresh closingInTime x ∧
      x.closers = [.closed 2] ∧ NobodyLeft x := by
  have hrun : ∃ x : Instance ℕ ℕ ℕ,
      Transition.Run (Instance.step plain) Quietly Instance.fresh closingInTime x ∧
        x.closers = [.closed 2] := ⟨_, Transition.run_of_checked rfl, rfl⟩
  obtain ⟨x, hr, hc⟩ := hrun
  exact ⟨x, hr, hc, close_leaves_nobody ⟨_, _, rfl, hr⟩⟩

/-- A call is started when `close()` awaits the deletion. -/
theorem caller_left_behind : ∃ x : Instance ℕ ℕ ℕ,
    Transition.Run (Instance.step plain) (fun _ _ => True) Instance.fresh
      [.calls (.call 1), .close, .cancelled 0, .unbound 0, .calls (.call 2), .deleted 0] x ∧
      .closed 2 ∈ x.closers ∧ x.calls.made[1]? = some ⟨2, none, false⟩ ∧ ¬ NobodyLeft x := by
  refine ⟨_, Transition.run_of_checked rfl, by decide, rfl, fun h => ?_⟩
  have hdone := h 2 List.mem_cons_self 1 (by decide) _ rfl
  cases hdone

end AioPika.Rpc
