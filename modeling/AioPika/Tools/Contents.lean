import AioPika.Tools.Callbacks

/-! # What a collection contains

A collection that is left alone is as good as its members and its flag: the
methods change these as they would change a value, and touch nothing of the memory
but the sets of the collection and new ones.
-/

namespace AioPika.CallbackCollection

open Coroutine

/-- The callbacks that a collection keeps alive, the others, and whether it is frozen. -/
structure Contents (C : Type) where
  strong : Finset C
  weak : Finset C
  frozen : Bool
  deriving DecidableEq

variable {C S : Type}

def Store.contents (s : Store C S) : Contents C := ⟨s.strong, s.weak, s.isFrozen⟩

namespace Contents

variable [DecidableEq C] (c : Contents C) (callable : C → Bool)

abbrev Method (C : Type) := EStateM (CallbackError C) (Contents C)

def empty : Contents C := ⟨∅, ∅, false⟩

def members : Finset C := c.strong ∪ c.weak

def iter (o : IterationOrder C) : List C := o.list c.strong ++ o.list c.weak

def Callable : Prop := ∀ x ∈ c.members, callable x = true

def insert (callback : C) (weak : Bool) : Contents C :=
  if weak then { c with weak := Insert.insert callback c.weak }
  else { c with strong := Insert.insert callback c.strong }

/-- A weak member is taken away only if it is no strong one. -/
def erase (callback : C) : Contents C :=
  if callback ∈ c.strong then { c with strong := c.strong.erase callback }
  else { c with weak := c.weak.erase callback }

def add (callback : C) (weak : Bool) : Method C PUnit := do
  let c ← get
  if c.frozen then
    throw (.runtimeError "Collection frozen")
  else if callable callback = false then
    throw (.valueError "Callback is not callable")
  else
    modify fun c => c.insert callback weak

def discard (callback : C) : Method C PUnit := do
  let c ← get
  if c.frozen then
    throw (.runtimeError "Collection frozen")
  else
    modify fun c => c.erase callback

def clear : Method C PUnit := do
  let c ← get
  if c.frozen then
    throw (.runtimeError "Collection frozen")
  else
    modify fun c => { c with strong := ∅, weak := ∅ }

def freeze : Method C PUnit := do
  let c ← get
  if c.frozen then
    throw (.runtimeError "Collection already frozen")
  else
    modify fun c => { c with frozen := true }

def unfreeze : Method C PUnit := do
  let c ← get
  if c.frozen = false then
    throw (.runtimeError "Collection is not frozen")
  else
    modify fun c => { c with frozen := false }

def addAll (strong weak : List C) : Method C PUnit := do
  strong.forM fun callback => add callable callback false
  weak.forM fun callback => add callable callback true

def mutableSet : MutableSet (CallbackError C) (Contents C) C where
  contains x c := x ∈ c.strong ∨ x ∈ c.weak
  iter o c := c.iter o
  add callback := add callable callback false
  discard := discard
  clear := clear
  fromIterable _ := []
  keyError value := .keyError value

end Contents

variable [DecidableEq C]

def Op.perform (callable : C → Bool) : Op C → Contents.Method C (Option C)
  | .add callback weak => do
    Contents.add callable callback weak
    pure none
  | .discard callback => do
    Contents.discard callback
    pure none
  | .remove callback => do
    (Contents.mutableSet callable).remove callback
    pure none
  | .pop o => do
    let callback ← (Contents.mutableSet callable).pop o
    pure (some callback)
  | .clear => do
    Contents.clear
    pure none
  | .freeze => do
    Contents.freeze
    pure none
  | .unfreeze => do
    Contents.unfreeze
    pure none

def Operator.perform (callable : C → Bool) : Operator C → Contents.Method C PUnit
  | .ior o it => (Contents.mutableSet callable).ior o it
  | .iand o it => (Contents.mutableSet callable).iand o it
  | .isub it => (Contents.mutableSet callable).isub it
  | .ixor it => (Contents.mutableSet callable).ixor it

/-- What is kept while a method runs: the objects at the addresses `foreign` are those of
`memory`, and the sender and the lock are the same. -/
structure Frame (C S : Type) where
  memory : Memory (SetObject C)
  foreign : Set ℕ
  sender : S
  locked : Bool

variable {F : Frame C S} {s : Store C S} {c d : Contents C} {callable : C → Bool}

theorem Contents.Callable.mono (h : c.Callable callable) (hs : d.strong ⊆ c.strong)
    (hw : d.weak ⊆ c.weak) : d.Callable callable :=
  fun x hx => h x (Finset.union_subset_union hs hw hx)

/-- A collection has two sets of its own, with these contents. -/
structure Represents (callable : C → Bool) (F : Frame C S) (s : Store C S) (c : Contents C) :
    Prop where
  contents : s.contents = c
  callable : c.Callable callable
  kind : (s.memory.cells s.self.callbacks).kind ≠ .weakSet
  weakKind : (s.memory.cells s.self.weakCallbacks).kind = .weakSet
  callbacks_lt : s.self.callbacks < s.memory.next
  weakCallbacks_lt : s.self.weakCallbacks < s.memory.next
  callbacks_notMem : s.self.callbacks ∉ F.foreign
  weakCallbacks_notMem : s.self.weakCallbacks ∉ F.foreign
  agree : Memory.Agree F.foreign F.memory s.memory
  sender : s.self.sender = F.sender
  locked : s.self.locked = F.locked

theorem Represents.ne (h : Represents callable F s c) :
    s.self.callbacks ≠ s.self.weakCallbacks := by
  intro he
  apply h.kind
  rw [he]
  exact h.weakKind

theorem Represents.strong_eq (h : Represents callable F s c) : s.strong = c.strong :=
  congrArg Contents.strong h.contents

theorem Represents.weak_eq (h : Represents callable F s c) : s.weak = c.weak :=
  congrArg Contents.weak h.contents

theorem Represents.isFrozen_eq (h : Represents callable F s c) : s.isFrozen = c.frozen :=
  congrArg Contents.frozen h.contents

theorem Represents.setLocked (h : Represents callable F s c) (locked : Bool) :
    Represents callable { F with locked := locked } (lock.set locked s) c :=
  { h with locked := rfl }

section Changes

variable {f : Finset C → Finset C}

omit [DecidableEq C] in
theorem contents_of_cells {self : CallbackCollection S} {m : Memory (SetObject C)}
    {x y : SetObject C} (hx : m.cells self.callbacks = x) (hy : m.cells self.weakCallbacks = y) :
    Store.contents ⟨m, self⟩ = ⟨x.items, y.items, x.kind = .frozenset⟩ := by
  subst hx hy
  rfl

omit [DecidableEq C] in
theorem change_run {field : CallbackCollection S → ℕ}
    (h : (s.memory.cells (field s.self)).kind ≠ .frozenset) :
    change field f s = .ok () { s with
      memory := s.memory.write (field s.self) { s.memory.cells (field s.self) with
        items := f (s.memory.cells (field s.self)).items } } := by
  unfold change
  rw [bind_ok get_run]
  dsimp only
  rw [if_neg h]
  rfl

theorem Represents.changeStrong (h : Represents callable F s c) (hf : c.frozen = false)
    (hcall : Contents.Callable { c with strong := f c.strong } callable) :
    Matches (Represents callable F) .raised (change callbacks f s)
      (.ok () { c with strong := f c.strong }) := by
  have hkind : (s.memory.cells s.self.callbacks).kind ≠ .frozenset := by
    have hfrozen := h.isFrozen_eq.trans hf
    simpa [Store.isFrozen] using hfrozen
  rw [change_run hkind]
  have hne := h.ne.symm
  refine .ok () ⟨?_, hcall, ?_, ?_, h.callbacks_lt, h.weakCallbacks_lt, h.callbacks_notMem,
    h.weakCallbacks_notMem, h.agree.write h.callbacks_notMem, h.sender, h.locked⟩
  · rw [contents_of_cells Memory.write_self (Memory.write_ne hne), ← h.contents]
    rfl
  · simpa using h.kind
  · rw [Memory.write_ne hne]
    exact h.weakKind

theorem Represents.changeWeak (h : Represents callable F s c)
    (hcall : Contents.Callable { c with weak := f c.weak } callable) :
    Matches (Represents callable F) .raised (change weakCallbacks f s)
      (.ok () { c with weak := f c.weak }) := by
  have hkind : (s.memory.cells s.self.weakCallbacks).kind ≠ .frozenset := by
    rw [h.weakKind]
    decide
  rw [change_run hkind]
  have hne := h.ne
  refine .ok () ⟨?_, hcall, ?_, ?_, h.callbacks_lt, h.weakCallbacks_lt, h.callbacks_notMem,
    h.weakCallbacks_notMem, h.agree.write h.weakCallbacks_notMem, h.sender, h.locked⟩
  · rw [contents_of_cells (Memory.write_ne hne) Memory.write_self, ← h.contents]
    rfl
  · rw [Memory.write_ne hne]
    exact h.kind
  · simpa using h.weakKind

theorem Represents.rebind (h : Represents callable F s c) {kind : SetKind}
    (hkind : kind ≠ .weakSet) :
    Matches (Represents callable F) .raised (rebind kind s)
      (.ok () { c with frozen := kind = .frozenset }) := by
  have hagree : Memory.Agree F.foreign F.memory (s.memory.alloc ⟨kind, s.strong⟩) := h.agree.alloc
  have hold : ((s.memory.alloc ⟨kind, s.strong⟩).cells s.self.weakCallbacks).items = s.weak := by
    rw [Memory.alloc_ne h.weakCallbacks_lt.ne]
    rfl
  have hrun : CallbackCollection.rebind kind s = .ok ()
      ⟨(s.memory.alloc ⟨kind, s.strong⟩).alloc ⟨.weakSet, s.weak⟩, { s.self with
        callbacks := s.memory.next
        weakCallbacks := s.memory.next + 1 }⟩ := by
    rw [← hold]
    rfl
  have hcallbacks : ((s.memory.alloc ⟨kind, s.strong⟩).alloc ⟨.weakSet, s.weak⟩).cells
      s.memory.next = ⟨kind, s.strong⟩ := Memory.alloc_alloc
  have hweak : ((s.memory.alloc ⟨kind, s.strong⟩).alloc ⟨.weakSet, s.weak⟩).cells
      (s.memory.next + 1) = ⟨.weakSet, s.weak⟩ := Memory.alloc_self
  rw [hrun]
  refine .ok () ⟨?_, h.callable, ?_, ?_, ?_, ?_, h.agree.next_notMem, hagree.next_notMem,
    hagree.alloc, h.sender, h.locked⟩
  · rw [contents_of_cells hcallbacks hweak, ← h.contents]
    rfl
  · dsimp only
    rw [hcallbacks]
    exact hkind
  · dsimp only
    rw [hweak]
  · exact Nat.lt_succ_of_lt (Nat.lt_succ_self _)
  · exact Nat.lt_succ_self _

end Changes

section Methods

variable (hF : F.locked = false)

include hF

theorem Represents.hold {α : Type} {body : Method C S α}
    {r : EStateM.Result (CallbackError C) (Contents C) α} (h : Represents callable F s c)
    (hbody : Matches (Represents callable { F with locked := true }) .raised
      (body (lock.set true s)) r) :
    Matches (Represents callable F) .raised (lock.hold body s) r := by
  apply Lock.matches_hold (e := id) (h.locked.trans hF) hbody
  intro s t h
  exact { h with locked := hF.symm }

theorem add_refines (callback : C) (weak : Bool) :
    Simulates (Represents callable F) .raised (add callable callback weak)
      (Contents.add callable callback weak) := by
  apply simulates_guard fun s c h => by rw [h.isFrozen_eq]
  intro s c h hf
  by_cases hc : callable callback = false
  · rw [if_pos hc, if_pos hc]
    exact .error _ h
  rw [if_neg hc, if_neg hc]
  apply h.hold hF
  have hcall : callable callback = true := by simpa using hc
  have hmem := h.callable
  cases weak with
  | true =>
    apply (h.setLocked true).changeWeak
    intro x hx
    rw [Contents.members, Finset.mem_union, Finset.mem_insert] at hx
    rcases hx with hx | rfl | hx
    · exact hmem x (Finset.mem_union_left _ hx)
    · exact hcall
    · exact hmem x (Finset.mem_union_right _ hx)
  | false =>
    apply (h.setLocked true).changeStrong (by simpa using hf)
    intro x hx
    rw [Contents.members, Finset.mem_union, Finset.mem_insert] at hx
    rcases hx with (rfl | hx) | hx
    · exact hcall
    · exact hmem x (Finset.mem_union_left _ hx)
    · exact hmem x (Finset.mem_union_right _ hx)

theorem addAll_refines (strong weak : List C) :
    Simulates (Represents callable F) .raised (addAll callable strong weak)
      (Contents.addAll callable strong weak) :=
  (simulates_forM fun x _ => add_refines hF x false).bind
    fun _ => simulates_forM fun x _ => add_refines hF x true

theorem discard_refines (callback : C) :
    Simulates (Represents callable F) .raised (discard callback) (Contents.discard callback) := by
  apply simulates_guard fun s c h => by rw [h.isFrozen_eq]
  intro s c h hf
  apply h.hold hF
  have h' := h.setLocked true
  change Matches _ _ _ (.ok () (c.erase callback))
  rw [bind_ok get_run, h'.strong_eq, h'.weak_eq, Contents.erase]
  by_cases hs : callback ∈ c.strong
  · rw [if_pos hs, if_pos hs]
    exact h'.changeStrong (by simpa using hf)
      (h.callable.mono (Finset.erase_subset _ _) (Finset.Subset.refl _))
  rw [if_neg hs, if_neg hs]
  by_cases hw : callback ∈ c.weak
  · rw [if_pos hw]
    exact h'.changeWeak (h.callable.mono (Finset.Subset.refl _) (Finset.erase_subset _ _))
  · rw [if_neg hw, Finset.erase_eq_of_notMem hw]
    exact .ok () h'

theorem clear_refines :
    Simulates (Represents callable F) .raised (clear : Method C S PUnit) Contents.clear := by
  apply simulates_guard fun s c h => by rw [h.isFrozen_eq]
  intro s c h hf
  apply h.hold hF
  have hempty : Contents.Callable { c with strong := ∅ } callable :=
    h.callable.mono (Finset.empty_subset _) (Finset.Subset.refl _)
  have hstrong := (h.setLocked true).changeStrong (f := fun _ => ∅) (by simpa using hf) hempty
  obtain ⟨s', hs, h'⟩ := hstrong.ok_iff
  rw [bind_ok hs]
  exact h'.changeWeak (hempty.mono (Finset.Subset.refl _) (Finset.empty_subset _))

theorem freeze_refines :
    Simulates (Represents callable F) .raised (freeze : Method C S PUnit) Contents.freeze := by
  apply simulates_guard fun s c h => by rw [h.isFrozen_eq]
  intro s c h hf
  exact h.hold hF ((h.setLocked true).rebind (by decide))

theorem unfreeze_refines :
    Simulates (Represents callable F) .raised (unfreeze : Method C S PUnit) Contents.unfreeze := by
  apply simulates_guard fun s c h => by rw [h.isFrozen_eq]
  intro s c h hf
  exact h.hold hF ((h.setLocked true).rebind (by decide))

theorem mutableSet_refines : MutableSet.Refines (Represents callable F) .raised
    (mutableSet callable : MutableSet _ (Store C S) C) (Contents.mutableSet callable) where
  contains x s c h := by
    simp only [mutableSet, Store.contains, Contents.mutableSet, h.strong_eq, h.weak_eq]
  iter o s c h := by
    simp only [mutableSet, Store.iter, Contents.mutableSet, Contents.iter, h.strong_eq, h.weak_eq]
  add callback := add_refines hF callback false
  discard callback := discard_refines hF callback
  clear := clear_refines hF
  fromIterable := rfl
  keyError _ := rfl

theorem Op.refines (op : Op C) :
    Simulates (Represents callable F) .raised (op.run callable : Method C S (Option C))
      (op.perform callable) := by
  cases op with
  | add callback weak => exact (add_refines hF callback weak).bind fun _ => simulates_pure none
  | discard callback => exact (discard_refines hF callback).bind fun _ => simulates_pure none
  | remove callback =>
    exact ((mutableSet_refines hF).remove callback).bind fun _ => simulates_pure none
  | pop o => exact ((mutableSet_refines hF).pop o).bind fun x => simulates_pure (some x)
  | clear => exact (clear_refines hF).bind fun _ => simulates_pure none
  | freeze => exact (freeze_refines hF).bind fun _ => simulates_pure none
  | unfreeze => exact (unfreeze_refines hF).bind fun _ => simulates_pure none

theorem Operator.refines (op : Operator C) :
    Simulates (Represents callable F) .raised (op.run callable : Method C S PUnit)
      (op.perform callable) := by
  cases op with
  | ior o it => exact (mutableSet_refines hF).ior o it
  | iand o it => exact (mutableSet_refines hF).iand o it
  | isub it => exact (mutableSet_refines hF).isub it
  | ixor it => exact (mutableSet_refines hF).ixor it

end Methods

section Copies

def addresses (self : CallbackCollection S) : Set ℕ := {self.callbacks, self.weakCallbacks}

variable (callable) in
theorem init_represents {m : Memory (SetObject C)} {A : Set ℕ} (sender : S)
    (h : Memory.Agree A m m) :
    Represents callable ⟨m, A, sender, false⟩ (init m sender) Contents.empty := by
  have hcallbacks : (init m sender).memory.cells (init m sender).self.callbacks = ⟨.set, ∅⟩ :=
    Memory.alloc_alloc
  have hweak : (init m sender).memory.cells (init m sender).self.weakCallbacks = ⟨.weakSet, ∅⟩ :=
    Memory.alloc_self
  have hagree : Memory.Agree A m (m.alloc ⟨.set, ∅⟩) := h.alloc
  refine ⟨contents_of_cells hcallbacks hweak, ?_, ?_, ?_, ?_, ?_, h.next_notMem,
    hagree.next_notMem, hagree.alloc, rfl, rfl⟩
  · intro x hx
    cases Finset.notMem_empty x hx
  · rw [hcallbacks]
    exact SetKind.noConfusion
  · rw [hweak]
  · exact Nat.lt_succ_of_lt (Nat.lt_succ_self _)
  · exact Nat.lt_succ_self _

/-- A collection whose sets are left alone is what it was. -/
theorem Represents.of_agree (h : Represents callable F s c) {m : Memory (SetObject C)}
    (hm : Memory.Agree (F.foreign ∪ addresses s.self) s.memory m) :
    Represents callable F ⟨m, s.self⟩ c := by
  have hcallbacks : s.self.callbacks ∈ F.foreign ∪ addresses s.self := Or.inr (Or.inl rfl)
  have hweak : s.self.weakCallbacks ∈ F.foreign ∪ addresses s.self := Or.inr (Or.inr rfl)
  refine ⟨?_, h.callable, ?_, ?_, hm.below _ hcallbacks, hm.below _ hweak, h.callbacks_notMem,
    h.weakCallbacks_notMem, h.agree.trans (hm.subset Set.subset_union_left), h.sender, h.locked⟩
  · rw [contents_of_cells (hm.same _ hcallbacks) (hm.same _ hweak), ← h.contents]
    rfl
  · dsimp only
    rw [hm.same _ hcallbacks]
    exact h.kind
  · dsimp only
    rw [hm.same _ hweak]
    exact h.weakKind

theorem Represents.agree_self (h : Represents callable F s c) :
    Memory.Agree (F.foreign ∪ addresses s.self) s.memory s.memory where
  below a ha := by
    rcases ha with ha | rfl | rfl
    · exact h.agree.below a ha
    · exact h.callbacks_lt
    · exact h.weakCallbacks_lt
  same _ _ := rfl

theorem add_ok (hf : c.frozen = false) {callback : C} (hc : callable callback = true)
    (weak : Bool) :
    Contents.add callable callback weak c = .ok () (c.insert callback weak) := by
  unfold Contents.add
  rw [bind_ok get_run, if_neg (by simpa using hf), if_neg (by simpa using hc)]
  rfl

theorem forM_add {l : List C} {w : Bool} (hl : ∀ x ∈ l, callable x = true)
    (hf : c.frozen = false) :
    (l.forM fun x => Contents.add callable x w) c = .ok () (if w then
      { c with weak := l.toFinset ∪ c.weak } else { c with strong := l.toFinset ∪ c.strong }) := by
  induction l generalizing c with
  | nil => cases w <;> simp <;> rfl
  | cons x l ih =>
    have hadd := add_ok hf (hl x List.mem_cons_self) w
    have hf' : (c.insert x w).frozen = false := by
      unfold Contents.insert
      split <;> exact hf
    change (Contents.add callable x w >>= fun _ => l.forM _) c = _
    rw [bind_ok hadd, ih (fun y hy => hl y (List.mem_cons_of_mem _ hy)) hf']
    cases w <;> simp [Contents.insert, Finset.union_insert, Finset.insert_union]

theorem toFinset_list (o : IterationOrder C) (t : Finset C) : (o.list t).toFinset = t := by
  ext x
  rw [List.mem_toFinset, o.mem_iff]

theorem addAll_run (h : c.Callable callable) (o : IterationOrder C) :
    Contents.addAll callable (o.list c.strong) (o.list c.weak) Contents.empty =
      .ok () { c with frozen := false } := by
  have hs : ∀ x ∈ o.list c.strong, callable x = true :=
    fun x hx => h x (Finset.mem_union_left _ ((o.mem_iff _ _).mp hx))
  have hw : ∀ x ∈ o.list c.weak, callable x = true :=
    fun x hx => h x (Finset.mem_union_right _ ((o.mem_iff _ _).mp hx))
  unfold Contents.addAll
  rw [bind_ok (forM_add hs rfl), forM_add hw rfl, toFinset_list, toFinset_list]
  simp [Contents.empty]

omit [DecidableEq C] in
theorem on_ok {other : CallbackCollection S} {method : Method C S PUnit} {t : Store C S}
    (h : method ⟨s.memory, other⟩ = .ok () t) :
    on other method s = .ok t.self ⟨t.memory, s.self⟩ := by
  unfold on
  rw [h]

/-- A collection that is copied keeps its contents, and the copy has the same ones in sets of its
own. -/
theorem copy_run (hF : F.locked = false) (h : Represents callable F s c) (o : IterationOrder C) :
    ∃ copied m, copy callable o s = .ok copied ⟨m, s.self⟩ ∧ Represents callable F ⟨m, s.self⟩ c ∧
      Represents callable ⟨s.memory, F.foreign ∪ addresses s.self, s.self.sender, false⟩
        ⟨m, copied⟩ c := by
  have hlocked : s.self.locked = false := h.locked.trans hF
  have hunlocked : { s.self with locked := false } = s.self := by rw [← hlocked]
  have hcreated := init_represents callable s.self.sender h.agree_self
  -- the members are added to the new collection while the lock is held
  have hs := (h.of_agree hcreated.agree).setLocked true
  have hadd := addAll_refines rfl (o.list c.strong) (o.list c.weak) _ _ hcreated
  rw [addAll_run h.callable o] at hadd
  obtain ⟨u, hu, hru⟩ := hadd.ok_iff
  have hbody : (do
      let r ← get
      on (init s.memory s.self.sender).self
        (addAll callable (o.list r.strong) (o.list r.weak)))
      (lock.set true ⟨(init s.memory s.self.sender).memory, s.self⟩) =
        .ok u.self ⟨u.memory, { s.self with locked := true }⟩ := by
    rw [bind_ok get_run, hs.strong_eq, hs.weak_eq]
    exact on_ok hu
  have hset : lock.set false ⟨u.memory, { s.self with locked := true }⟩ =
      (⟨u.memory, s.self⟩ : Store C S) := by
    change (⟨u.memory, { s.self with locked := false }⟩ : Store C S) = _
    rw [hunlocked]
  have hheld := Lock.hold_ok hlocked hbody
  rw [hset] at hheld
  have hself : Represents callable F ⟨u.memory, s.self⟩ c := h.of_agree hru.agree
  have hrun : copy callable o s =
      (get >>= fun r : Store C S => if r.isFrozen then on u.self freeze else pure u.self)
        ⟨u.memory, s.self⟩ := by
    unfold copy
    rw [bind_ok get_run, bind_ok modify_run]
    exact bind_ok hheld
  rw [hrun, bind_ok get_run, hself.isFrozen_eq]
  by_cases hf : c.frozen = true
  · rw [if_pos hf]
    have hfreeze := freeze_refines rfl _ _ hru
    have hc : { c with frozen := true } = c := by rw [← hf]
    have hvalue : Contents.freeze { c with frozen := false } = .ok () { c with frozen := true } :=
      rfl
    rw [hvalue, hc] at hfreeze
    obtain ⟨v, hv, hrv⟩ := hfreeze.ok_iff
    exact ⟨v.self, v.memory, on_ok hv, h.of_agree hrv.agree, hrv⟩
  · rw [if_neg hf]
    have hc : { c with frozen := false } = c := by
      rw [← Bool.eq_false_iff.mpr hf]
    rw [hc] at hru
    exact ⟨u.self, u.memory, rfl, hself, hru⟩

end Copies

end AioPika.CallbackCollection
