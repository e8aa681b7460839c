import AioPika.Foundation.Dict
import Mathlib.Data.List.Basic

/-! # Ledgers of subscriptions

A ledger records locally what is subscribed at a remote party. Calls subscribe
and unsubscribe: each is applied at the remote party while it is in flight, and
changes the record when it returns. A replay subscribes recorded entries again,
one at a time. An item whose unsubscription has returned stays unsubscribed as
long as no replay of the item is applied or recorded after that.
-/

/-- What a call asks for; a subscription may be left out of the record. -/
inductive CallKind (ν ι : Type*) where
  | subscribe (value : ν) (recorded : Bool)
  | unsubscribe (item : ι)
  deriving DecidableEq, Repr

structure LedgerCall (κ ν ι : Type*) where
  kind : CallKind ν ι
  key : κ
  /-- The remote party has applied the call, and its answer is under way. -/
  applied : Bool
  /-- The item was being subscribed at some point of this unsubscription. -/
  crossed : Bool

structure Ledger (κ ν ι : Type*) where
  /-- The local record. -/
  entries : Dict κ ν
  /-- The items that are subscribed at the remote party. -/
  remote : List ι
  calls : List (LedgerCall κ ν ι)
  /-- The entry that is being replayed, and whether it has been applied. -/
  replaying : Option ((κ × ν) × Bool)
  /-- The replay has begun. -/
  begun : Bool
  /-- The items whose unsubscription has returned since the replay began, and that were not
  being subscribed meanwhile or since. -/
  dropped : List ι

namespace Ledger

inductive Action (κ ν ι : Type*) where
  | subscribe (key : κ) (value : ν) (recorded : Bool)
  | unsubscribe (key : κ) (item : ι)
  | apply (call : ℕ)
  | return (call : ℕ)
  | replayCall (key : κ) (value : ν)
  | replayApply
  | replayReturn

variable {κ ν ι : Type*} [DecidableEq κ] [DecidableEq ι] (ident : κ → ν → ι)

def Subscribes (i : ι) (c : LedgerCall κ ν ι) : Prop :=
  match c.kind with
  | .subscribe v _ => ident c.key v = i
  | .unsubscribe _ => False

instance (i : ι) (c : LedgerCall κ ν ι) : Decidable (Subscribes ident i c) :=
  match h : c.kind with
  | .subscribe v _ => decidable_of_iff (ident c.key v = i) (by rw [Subscribes, h])
  | .unsubscribe _ => .isFalse (by rw [Subscribes, h]; exact id)

/-- A call unsubscribes an item, and is not crossed. -/
def Unsubscribes (i : ι) (c : LedgerCall κ ν ι) : Prop :=
  c.crossed = false ∧
    match c.kind with
    | .subscribe _ _ => False
    | .unsubscribe j => j = i

instance (i : ι) (c : LedgerCall κ ν ι) : Decidable (Unsubscribes i c) :=
  match h : c.kind with
  | .subscribe _ _ => .isFalse (by rw [Unsubscribes, h]; exact And.right)
  | .unsubscribe j => decidable_of_iff (c.crossed = false ∧ j = i) (by rw [Unsubscribes, h])

/-- The replay begins, and the remote party has lost some items. -/
def begin (s : Ledger κ ν ι) (lost : ι → Bool) : Ledger κ ν ι :=
  { s with remote := s.remote.filter fun i => ¬ lost i, begun := true }

def step (s : Ledger κ ν ι) : Action κ ν ι → Option (Ledger κ ν ι)
  | .subscribe k v recorded =>
    some { s with
      calls := s.calls.map (fun c =>
          if Unsubscribes (ident k v) c then { c with crossed := true } else c) ++
        [⟨.subscribe v recorded, k, false, false⟩]
      dropped := s.dropped.filter fun i => i ≠ ident k v }
  | .unsubscribe k i =>
    some { s with
      calls := s.calls ++ [⟨.unsubscribe i, k, false, s.calls.any (Subscribes ident i)⟩] }
  | .apply j =>
    match s.calls[j]? with
    | none => none
    | some c =>
      if c.applied then none
      else some { s with
        calls := s.calls.set j { c with applied := true }
        remote := match c.kind with
          | .subscribe v _ => ident c.key v :: s.remote
          | .unsubscribe i => s.remote.filter fun i' => i' ≠ i }
  | .return j =>
    match s.calls[j]? with
    | none => none
    | some c =>
      if c.applied then some { s with
        calls := s.calls.eraseIdx j
        entries := match c.kind with
          | .subscribe v recorded => if recorded then s.entries.set c.key v else s.entries
          | .unsubscribe _ => s.entries.pop c.key
        dropped := match c.kind with
          | .subscribe _ _ => s.dropped
          | .unsubscribe i => if ¬ c.crossed ∧ s.begun then i :: s.dropped else s.dropped }
      else none
  | .replayCall k v =>
    match s.replaying with
    | none => some { s with replaying := some ((k, v), false) }
    | some _ => none
  | .replayApply =>
    match s.replaying with
    | some (e, false) =>
      some { s with replaying := some (e, true), remote := ident e.1 e.2 :: s.remote }
    | _ => none
  | .replayReturn =>
    match s.replaying with
    | some (e, true) => some { s with replaying := none, entries := s.entries.set e.1 e.2 }
    | _ => none

/-- A call leaves no record of an item that it unsubscribes under another key. -/
def LeavesNoAlias (s : Ledger κ ν ι) (c : LedgerCall κ ν ι) : Prop :=
  match c.kind with
  | .subscribe _ _ => True
  | .unsubscribe i => c.crossed = false → s.begun = true →
    ∀ e ∈ s.entries.items, e.1 ≠ c.key → ident e.1 e.2 ≠ i

instance (s : Ledger κ ν ι) (c : LedgerCall κ ν ι) : Decidable (LeavesNoAlias ident s c) :=
  match h : c.kind with
  | .subscribe _ _ => .isTrue (by rw [LeavesNoAlias, h]; trivial)
  | .unsubscribe i => decidable_of_iff (c.crossed = false → s.begun = true →
      ∀ e ∈ s.entries.items, e.1 ≠ c.key → ident e.1 e.2 ≠ i) (by rw [LeavesNoAlias, h])

/-- A replayed item is neither applied nor recorded once its unsubscription has returned, nor
applied while an unsubscription of it has been applied and not returned; and an unsubscription
leaves no record of its item under another key. -/
def Safe (s : Ledger κ ν ι) : Action κ ν ι → Prop
  | .return j => ∀ c ∈ s.calls[j]?, LeavesNoAlias ident s c
  | .replayApply => ∀ e ∈ s.replaying, ident e.1.1 e.1.2 ∉ s.dropped ∧
    ∀ c ∈ s.calls, Unsubscribes (ident e.1.1 e.1.2) c → c.applied = false
  | .replayReturn => ∀ e ∈ s.replaying, ident e.1.1 e.1.2 ∉ s.dropped
  | _ => True

instance (s : Ledger κ ν ι) (a : Action κ ν ι) : Decidable (Safe ident s a) :=
  match a with
  | .return j => inferInstanceAs (Decidable (∀ c ∈ s.calls[j]?, LeavesNoAlias ident s c))
  | .replayApply => inferInstanceAs (Decidable (∀ e ∈ s.replaying,
      ident e.1.1 e.1.2 ∉ s.dropped ∧
        ∀ c ∈ s.calls, Unsubscribes (ident e.1.1 e.1.2) c → c.applied = false))
  | .replayReturn =>
    inferInstanceAs (Decidable (∀ e ∈ s.replaying, ident e.1.1 e.1.2 ∉ s.dropped))
  | .subscribe _ _ _ | .unsubscribe _ _ | .apply _ | .replayCall _ _ =>
    inferInstanceAs (Decidable True)

def Absent (s : Ledger κ ν ι) (i : ι) : Prop :=
  i ∉ s.remote ∧ ∀ e ∈ s.entries.items, ident e.1 e.2 ≠ i

structure Inv (s : Ledger κ ν ι) : Prop where
  absent : ∀ i ∈ s.dropped, Absent ident s i
  idle : ∀ i ∈ s.dropped, ∀ c ∈ s.calls, ¬ Subscribes ident i c
  uncrossed : ∀ i, ∀ c ∈ s.calls, Unsubscribes i c → ∀ c' ∈ s.calls, ¬ Subscribes ident i c'
  removed : ∀ i, ∀ c ∈ s.calls, Unsubscribes i c → c.applied = true → i ∉ s.remote

variable {ident} {s t : Ledger κ ν ι} {k : κ} {v : ν} {j : ℕ} {i : ι} {c : LedgerCall κ ν ι}

omit [DecidableEq κ] [DecidableEq ι] in
theorem Subscribes.kind (h : Subscribes ident i c) :
    ∃ v recorded, c.kind = .subscribe v recorded ∧ ident c.key v = i := by
  unfold Subscribes at h
  split at h
  · rename_i v recorded hk
    exact ⟨v, recorded, hk, h⟩
  · cases h

omit [DecidableEq κ] [DecidableEq ι] in
theorem Unsubscribes.kind (h : Unsubscribes i c) : c.kind = .unsubscribe i := by
  obtain ⟨-, h⟩ := h
  split at h
  · cases h
  · rename_i j hk
    rw [hk, h]

omit [DecidableEq κ] [DecidableEq ι] in
theorem subscribes_iff {recorded : Bool} (hk : c.kind = .subscribe v recorded) :
    Subscribes ident i c ↔ ident c.key v = i := by
  rw [Subscribes, hk]

omit [DecidableEq κ] [DecidableEq ι] in
theorem Inv.begin (h : Inv ident s) (lost : ι → Bool) : Inv ident (s.begin lost) :=
  ⟨fun i hi => ⟨fun hm => (h.absent i hi).1 (List.mem_filter.mp hm).1, (h.absent i hi).2⟩,
    h.idle, h.uncrossed,
    fun i c hc hu ha hm => h.removed i c hc hu ha (List.mem_filter.mp hm).1⟩

theorem Inv.unsubscribe (h : Inv ident s)
    (hs : step ident s (.unsubscribe k i) = some t) : Inv ident t := by
  obtain rfl := Option.some.inj hs
  -- the new call counts only if nobody is subscribing the item
  have hnew : ∀ i', Unsubscribes i' (⟨.unsubscribe i, k, false,
      s.calls.any (Subscribes ident i)⟩ : LedgerCall κ ν ι) →
      ∀ c ∈ s.calls, ¬ Subscribes ident i' c := by
    rintro i' ⟨hc, rfl⟩ c hm hsub
    simp only [List.any_eq_false, decide_eq_true_eq] at hc
    exact hc c hm hsub
  refine ⟨h.absent, ?_, ?_, ?_⟩
  · intro i hi c hc hsub
    rcases List.mem_append.mp hc with hc | hc
    · exact h.idle i hi c hc hsub
    · obtain rfl := List.mem_singleton.mp hc
      exact hsub
  · intro i c hc hu c' hc' hsub
    rcases List.mem_append.mp hc' with hc' | hc'
    · rcases List.mem_append.mp hc with hc | hc
      · exact h.uncrossed i c hc hu c' hc' hsub
      · obtain rfl := List.mem_singleton.mp hc
        exact hnew i hu c' hc' hsub
    · obtain rfl := List.mem_singleton.mp hc'
      exact hsub
  · intro i c hc hu ha
    rcases List.mem_append.mp hc with hc | hc
    · exact h.removed i c hc hu ha
    · obtain rfl := List.mem_singleton.mp hc
      cases ha

theorem Inv.subscribe {recorded : Bool} (h : Inv ident s)
    (hs : step ident s (.subscribe k v recorded) = some t) : Inv ident t := by
  obtain rfl := Option.some.inj hs
  -- the unsubscriptions that still count are about other items
  have hcount : ∀ i, ∀ c ∈ s.calls.map (fun c =>
      if Unsubscribes (ident k v) c then { c with crossed := true } else c),
      Unsubscribes i c → i ≠ ident k v ∧ c ∈ s.calls := by
    intro i c hc hu
    obtain ⟨c₀, hc₀, rfl⟩ := List.mem_map.mp hc
    by_cases hu₀ : Unsubscribes (ident k v) c₀
    · rw [if_pos hu₀] at hu
      cases hu.1
    · rw [if_neg hu₀] at hu ⊢
      exact ⟨fun hi => hu₀ (hi ▸ hu), hc₀⟩
  have hsubs : ∀ i, ∀ c ∈ s.calls.map (fun c =>
      if Unsubscribes (ident k v) c then { c with crossed := true } else c),
      Subscribes ident i c → c ∈ s.calls := by
    intro i c hc hsub
    obtain ⟨c₀, hc₀, rfl⟩ := List.mem_map.mp hc
    by_cases hu₀ : Unsubscribes (ident k v) c₀
    · rw [if_pos hu₀] at hsub
      obtain ⟨v', r', hk, -⟩ := hsub.kind
      cases hu₀.kind.symm.trans hk
    · rwa [if_neg hu₀]
  refine ⟨fun i hi => h.absent i (List.mem_filter.mp hi).1, ?_, ?_, ?_⟩
  · intro i hi c hc hsub
    obtain ⟨hi, hne⟩ := List.mem_filter.mp hi
    rcases List.mem_append.mp hc with hc | hc
    · exact h.idle i hi c (hsubs i c hc hsub) hsub
    · obtain rfl := List.mem_singleton.mp hc
      exact of_decide_eq_true hne hsub.symm
  · intro i c hc hu c' hc' hsub
    rcases List.mem_append.mp hc with hc | hc
    · obtain ⟨hne, hc⟩ := hcount i c hc hu
      rcases List.mem_append.mp hc' with hc' | hc'
      · exact h.uncrossed i c hc hu c' (hsubs i c' hc' hsub) hsub
      · obtain rfl := List.mem_singleton.mp hc'
        exact hne hsub.symm
    · obtain rfl := List.mem_singleton.mp hc
      cases hu.kind
  · intro i c hc hu ha
    rcases List.mem_append.mp hc with hc | hc
    · exact h.removed i c (hcount i c hc hu).2 hu ha
    · obtain rfl := List.mem_singleton.mp hc
      cases ha

theorem Inv.apply (h : Inv ident s) (hs : step ident s (.apply j) = some t) : Inv ident t := by
  simp only [step] at hs
  cases hj : s.calls[j]? with
  | none => rw [hj] at hs; cases hs
  | some c =>
    rw [hj] at hs
    have hcm : c ∈ s.calls := List.mem_of_getElem? hj
    simp only at hs
    split at hs
    · cases hs
    · obtain rfl := Option.some.inj hs
      -- apart from its progress, the call is as before
      have hback : ∀ c' ∈ s.calls.set j { c with applied := true },
          c' ∈ s.calls ∨ c' = { c with applied := true } :=
        fun c' hc' => List.mem_or_eq_of_mem_set hc'
      have hremote : ∀ i, i ∉ s.remote → ¬ Subscribes ident i c →
          i ∉ (match c.kind with
            | .subscribe v _ => ident c.key v :: s.remote
            | .unsubscribe i => s.remote.filter fun i' => i' ≠ i) := by
        intro i hi hsub hm
        split at hm
        · rename_i v recorded hk
          rcases List.mem_cons.mp hm with rfl | hm
          · exact hsub ((subscribes_iff hk).mpr rfl)
          · exact hi hm
        · exact hi (List.mem_filter.mp hm).1
      refine ⟨fun i hi => ⟨hremote i (h.absent i hi).1 (h.idle i hi c hcm), (h.absent i hi).2⟩,
        ?_, ?_, ?_⟩
      · intro i hi c' hc' hsub
        rcases hback c' hc' with hc' | rfl
        · exact h.idle i hi c' hc' hsub
        · exact h.idle i hi c hcm hsub
      · intro i c' hc' hu c'' hc'' hsub
        have hu' : ∃ c₀ ∈ s.calls, Unsubscribes i c₀ := by
          rcases hback c' hc' with hc' | rfl
          · exact ⟨c', hc', hu⟩
          · exact ⟨c, hcm, hu⟩
        obtain ⟨c₀, hc₀, hu₀⟩ := hu'
        rcases hback c'' hc'' with hc'' | rfl
        · exact h.uncrossed i c₀ hc₀ hu₀ c'' hc'' hsub
        · exact h.uncrossed i c₀ hc₀ hu₀ c hcm hsub
      · intro i c' hc' hu ha
        rcases hback c' hc' with hc' | rfl
        · exact hremote i (h.removed i c' hc' hu ha) (h.uncrossed i c' hc' hu c hcm)
        · have hk : c.kind = .unsubscribe i := Unsubscribes.kind (c := c) hu
          simp [hk]

theorem Inv.return (h : Inv ident s) (hok : Safe ident s (.return j))
    (hs : step ident s (.return j) = some t) : Inv ident t := by
  simp only [step] at hs
  cases hj : s.calls[j]? with
  | none => rw [hj] at hs; cases hs
  | some c =>
    rw [hj] at hs
    have hcm : c ∈ s.calls := List.mem_of_getElem? hj
    have hback : ∀ c' ∈ s.calls.eraseIdx j, c' ∈ s.calls := fun c' hc' =>
      List.mem_of_mem_eraseIdx hc'
    simp only at hs
    split at hs
    · rename_i happ
      obtain rfl := Option.some.inj hs
      refine ⟨?_, ?_, fun i c' hc' hu c'' hc'' =>
        h.uncrossed i c' (hback c' hc') hu c'' (hback c'' hc''),
        fun i c' hc' hu ha => h.removed i c' (hback c' hc') hu ha⟩
      · intro i hi
        cases hk : c.kind with
        | subscribe v recorded =>
          simp only [hk] at hi
          have hsub := h.idle i hi c hcm
          rw [subscribes_iff hk] at hsub
          refine ⟨(h.absent i hi).1, fun e he => ?_⟩
          simp only at he
          split at he
          · rcases Dict.mem_items_set he with rfl | he
            · exact hsub
            · exact (h.absent i hi).2 e he
          · exact (h.absent i hi).2 e he
        | unsubscribe i₀ =>
          simp only [hk] at hi
          -- the item is among the dropped ones already, or is that of the call
          have hcases : i ∈ s.dropped ∨ i = i₀ ∧ c.crossed = false ∧ s.begun = true := by
            split at hi
            · rename_i hc
              rcases List.mem_cons.mp hi with rfl | hi
              · exact Or.inr ⟨rfl, by simpa using hc.1, hc.2⟩
              · exact Or.inl hi
            · exact Or.inl hi
          rcases hcases with hi | ⟨rfl, hc, hb⟩
          · refine ⟨(h.absent i hi).1, fun e he => ?_⟩
            simp only at he
            exact (h.absent i hi).2 e (List.mem_filter.mp he).1
          · have hu : Unsubscribes i c := ⟨hc, by rw [hk]⟩
            refine ⟨h.removed i c hcm hu happ, fun e he => ?_⟩
            simp only at he
            obtain ⟨he, hne⟩ := List.mem_filter.mp he
            have halias := hok c (by rw [hj]; rfl)
            rw [LeavesNoAlias, hk] at halias
            exact halias hc hb e he (of_decide_eq_true hne)
      · intro i hi c' hc' hsub
        cases hk : c.kind with
        | subscribe v recorded =>
          simp only [hk] at hi
          exact h.idle i hi c' (hback c' hc') hsub
        | unsubscribe i₀ =>
          simp only [hk] at hi
          split at hi
          · rename_i hc
            rcases List.mem_cons.mp hi with rfl | hi
            · exact h.uncrossed i c hcm ⟨by simpa using hc.1, by rw [hk]⟩ c' (hback c' hc') hsub
            · exact h.idle i hi c' (hback c' hc') hsub
          · exact h.idle i hi c' (hback c' hc') hsub
    · cases hs

theorem Inv.replay {a : Action κ ν ι} (h : Inv ident s) (hok : Safe ident s a)
    (ha : a = .replayApply ∨ a = .replayReturn ∨ ∃ k v, a = .replayCall k v)
    (hs : step ident s a = some t) : Inv ident t := by
  rcases ha with rfl | rfl | ⟨k, v, rfl⟩
  · simp only [step] at hs
    split at hs
    · rename_i e hr
      obtain rfl := Option.some.inj hs
      obtain ⟨hd, hu⟩ := hok (e, false) (by rw [hr]; rfl)
      refine ⟨fun i hi => ⟨?_, (h.absent i hi).2⟩, h.idle, h.uncrossed, ?_⟩
      · intro hm
        rcases List.mem_cons.mp hm with rfl | hm
        · exact hd hi
        · exact (h.absent i hi).1 hm
      · intro i c hc hui happ hm
        rcases List.mem_cons.mp hm with rfl | hm
        · rw [hu c hc hui] at happ
          cases happ
        · exact h.removed i c hc hui happ hm
    · cases hs
  · simp only [step] at hs
    split at hs
    · rename_i e hr
      obtain rfl := Option.some.inj hs
      have hd := hok (e, true) (by rw [hr]; rfl)
      refine ⟨fun i hi => ⟨(h.absent i hi).1, fun e' he => ?_⟩, h.idle, h.uncrossed, h.removed⟩
      rcases Dict.mem_items_set he with rfl | he
      · exact fun hi' => hd (hi' ▸ hi)
      · exact (h.absent i hi).2 e' he
    · cases hs
  · simp only [step] at hs
    split at hs
    · obtain rfl := Option.some.inj hs
      exact ⟨h.absent, h.idle, h.uncrossed, h.removed⟩
    · cases hs

/-- Safe steps keep what has been dropped unsubscribed. -/
theorem Inv.step {a : Action κ ν ι} (h : Inv ident s) (hok : Safe ident s a)
    (hs : step ident s a = some t) : Inv ident t := by
  cases a with
  | subscribe k v recorded => exact h.subscribe hs
  | unsubscribe k i => exact h.unsubscribe hs
  | apply j => exact h.apply hs
  | «return» j => exact h.return hok hs
  | replayCall k v => exact h.replay hok (Or.inr (Or.inr ⟨k, v, rfl⟩)) hs
  | replayApply => exact h.replay hok (Or.inl rfl) hs
  | replayReturn => exact h.replay hok (Or.inr (Or.inl rfl)) hs

end Ledger
