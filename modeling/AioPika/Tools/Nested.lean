import AioPika.Foundation.Futures
import AioPika.Tools.Dispatch

/-! # Collections of collections

A collection may be a callback of another one. A call of the outermost calls each
callback with the senders on its way, whatever the others do, and what it returns
is not done before all that the callbacks return to be awaited.
-/

namespace AioPika.CallbackCollection

open Coroutine Transition Future

/-- A callback: any function, or a collection with its sender, its members and its weak members. -/
inductive Callback (V : Type) where
  | leaf (id : ℕ)
  | collection (id : ℕ) (sender : V) (callbacks weakCallbacks : List (Callback V))

/-- `*args, **kwargs` -/
structure Arguments (V : Type) where
  args : List V
  kwargs : List (String × V)
  /-- The parameter of the method -/
  self_notMem : ∀ k ∈ kwargs, k.1 ≠ "self"

/-- `sender, *args, **kwargs` -/
def Arguments.cons {V : Type} (sender : V) (a : Arguments V) : Arguments V :=
  { a with args := sender :: a.args }

/-- What a leaf does with its arguments. -/
inductive Answer (E : Type) where
  | raises (exc : E)
  | plain
  /-- A coroutine, or a future of its own -/
  | awaitable
  /-- A future that is there already -/
  | future (i : ℕ)

inductive Work (V : Type) where
  /-- `STUB_AWAITABLE` -/
  | stub
  /-- What the leaf has returned -/
  | leaf (id : ℕ) (a : Arguments V)

inductive Returned (V : Type) where
  | plain
  | awaitable (work : Work V)
  | future (i : ℕ)

/-- The collections whose locks are held, the futures of the event loop, and the calls of leaves so
far. -/
structure World (V : Type) where
  held : Finset ℕ
  futures : List (Future (Work V))
  invoked : List (ℕ × Arguments V)

variable {V E : Type}

namespace World

def lock (id : ℕ) : Lock (World V) where
  isLocked w := decide (id ∈ w.held)
  set locked w := { w with held := if locked then insert id w.held else w.held.erase id }

def create (kind : FutureKind (Work V)) : EStateM (Stop E) (World V) ℕ := do
  let w ← get
  modify fun w => { w with futures := w.futures ++ [⟨kind, none⟩] }
  pure w.futures.length

end World

/-- `asyncio.ensure_future(result)`, if the result can be awaited -/
def Returned.ensureFuture : Returned V → EStateM (Stop E) (World V) (Option ℕ)
  | .plain => pure none
  | .awaitable work => do
    let i ← World.create (.task work)
    pure (some i)
  | .future i => pure (some i)

/-- `asyncio.gather(*futures, return_exceptions=True)` -/
def gather (futures : List ℕ) : EStateM (Stop E) (World V) (Returned V) := do
  let i ← World.create (.gather futures true)
  pure (.future i)

def Answer.exec (id : ℕ) (a : Arguments V) : Answer E → EStateM (Stop E) (World V) (Returned V)
  | .raises exc => throw (.raised exc)
  | .plain => pure .plain
  | .awaitable => pure (.awaitable (.leaf id a))
  | .future i => pure (.future i)

section Calls

variable (answer : ℕ → Arguments V → Answer E)

mutual

/-- `cb(*args, **kwargs)` -/
def Callback.call : Callback V → Arguments V → EStateM (Stop E) (World V) (Returned V)
  | .leaf id, a => do
    modify fun w => { w with invoked := w.invoked ++ [(id, a)] }
    (answer id a).exec id a
  | .collection id sender callbacks weakCallbacks, a =>
    dispatch (World.lock id)
      (callEach callbacks (a.cons sender) (callEach weakCallbacks (a.cons sender) (pure [])))
      gather (.awaitable .stub)

/-- The loop of `__call__` over these callbacks, and the rest of it. -/
def callEach : List (Callback V) → Arguments V → EStateM (Stop E) (World V) (List ℕ) →
    EStateM (Stop E) (World V) (List ℕ)
  | [], _, rest => rest
  | cb :: cbs, a, rest =>
    callNext
      (do
        let result ← cb.call a
        result.ensureFuture)
      (callEach cbs a rest)

end

/-- One turn of the loop of `__call__` -/
def Callback.turn (cb : Callback V) (a : Arguments V) : EStateM (Stop E) (World V) (Option ℕ) := do
  let result ← cb.call answer a
  result.ensureFuture

end Calls

section Trees

variable {τ : Type}

mutual

/-- A list made of the leaves and the collections of a tree -/
def Callback.collect (leaf : ℕ → List τ) (collection : ℕ → V → List τ → List τ) :
    Callback V → List τ
  | .leaf id => leaf id
  | .collection id sender callbacks weakCallbacks =>
    collection id sender
      (collectEach leaf collection callbacks ++ collectEach leaf collection weakCallbacks)

def collectEach (leaf : ℕ → List τ) (collection : ℕ → V → List τ → List τ) :
    List (Callback V) → List τ
  | [] => []
  | cb :: cbs => cb.collect leaf collection ++ collectEach leaf collection cbs

end

namespace Callback

def leaves : Callback V → List ℕ := collect (fun id => [id]) fun _ _ l => l

def collections : Callback V → List ℕ := collect (fun _ => []) fun id _ l => id :: l

/-- Every leaf with the senders on its path, the nearest first. -/
def paths : Callback V → List (ℕ × List V) :=
  collect (fun id => [(id, [])]) fun _ sender l => l.map fun p => (p.1, p.2 ++ [sender])

/-- The calls of its leaves when it is called itself -/
def calls (cb : Callback V) (a : Arguments V) : List (ℕ × Arguments V) :=
  cb.paths.map fun p => (p.1, p.2.foldr Arguments.cons a)

end Callback

end Trees

/-- Awaiting it ends, or can end, with this outcome. -/
def Returned.Ends (l : List (Future (Work V))) : Returned V → Outcome → Prop
  | .plain, o => o = .raised
  | .awaitable .stub, o => o = .returned
  | .awaitable (.leaf _ _), _ => True
  | .future i, o => ∃ f ∈ l[i]?, f.outcome = some o

def Answer.IsAwaitable : Answer E → Prop
  | .raises _ | .plain => False
  | .awaitable | .future _ => True

section Joins

variable (answer : ℕ → Arguments V → Answer E)

/-- What is awaited for a leaf: the task made of what it has returned, since there were `base`
futures, or the future that it has returned. -/
def Awaited (base : ℕ) (l : List (Future (Work V))) (c : ℕ × Arguments V) (k : ℕ) : Prop :=
  match answer c.1 c.2 with
  | .raises _ | .plain => False
  | .awaitable => base ≤ k ∧ l[k]? = some ⟨.task (.leaf c.1 c.2), none⟩
  | .future i => k = i

/-- What the leaf has returned to be awaited, in a call of the outermost collection between `w`
and `w'`, is done in `l`. -/
def Completed (w w' : World V) (l : List (Future (Work V))) (c : ℕ × Arguments V) : Prop :=
  (answer c.1 c.2).IsAwaitable → ∃ k, Awaited answer w.futures.length w'.futures c k ∧ Done l k

/-- One of the roots waits for what the leaf has returned. -/
def Joins (base : ℕ) (l : List (Future (Work V))) (roots : List ℕ) (c : ℕ × Arguments V) : Prop :=
  (answer c.1 c.2).IsAwaitable → ∃ k, Awaited answer base l c k ∧ ∃ i ∈ roots, Awaits base l i k

/-- The leaves have been called, and the roots wait for what they have returned. -/
structure Called (w w' : World V) (roots : List ℕ) (calls : List (ℕ × Arguments V)) : Prop where
  held : w'.held = w.held
  invoked : w'.invoked = w.invoked ++ calls
  made : Made w.futures w'.futures
  joins : ∀ c ∈ calls, Joins answer w.futures.length w'.futures roots c

end Joins

variable {answer : ℕ → Arguments V → Answer E} {w w' w'' : World V} {base base' : ℕ}
  {l l' : List (Future (Work V))} {roots roots' : List ℕ} {calls calls' : List (ℕ × Arguments V)}
  {c : ℕ × Arguments V}

section Joins

theorem Awaited.mono {k : ℕ} (h : Awaited answer base l c k) (hb : base' ≤ base)
    (hm : Made l l') : Awaited answer base' l' c k := by
  unfold Awaited at h ⊢
  split at h
  · exact h
  · exact h
  · exact ⟨hb.trans h.1, hm.get h.2⟩
  · exact h

theorem Joins.mono (h : Joins answer base l roots c) (hb : base' ≤ base) (hm : Made l l')
    (hr : roots ⊆ roots') : Joins answer base' l' roots' c := by
  intro ha
  obtain ⟨k, hk, i, hi, hw⟩ := h ha
  exact ⟨k, hk.mono hb hm, i, hr hi, (hw.later hm.later).mono hb⟩

theorem Joins.gather {n : ℕ} (h : Joins answer base l roots c) (hm : Made l l') (hb : base ≤ n)
    (hn : l'[n]? = some ⟨.gather roots true, none⟩) : Joins answer base l' [n] c := by
  intro ha
  obtain ⟨k, hk, i, hi, hw⟩ := h ha
  have hchild : Awaits base l' i k := hw.later hm.later
  exact ⟨k, hk.mono le_rfl hm, n, List.mem_singleton_self n, .child hb hn hi hchild⟩

theorem Joins.completed (h : Joins answer w.futures.length w'.futures roots c)
    (hl : Later w'.futures l) (hj : Joined w.futures.length l) (hd : ∀ i ∈ roots, Done l i) :
    Completed answer w w' l c := by
  intro ha
  obtain ⟨k, hk, i, hi, hw⟩ := h ha
  exact ⟨k, hk, (hw.later hl).done hj (hd i hi)⟩

theorem Called.append (h : Called answer w w' roots calls)
    (h' : Called answer w' w'' roots' calls') :
    Called answer w w'' (roots ++ roots') (calls ++ calls') where
  held := h'.held.trans h.held
  invoked := by rw [h'.invoked, h.invoked, List.append_assoc]
  made := h.made.trans h'.made
  joins c hc := by
    rcases List.mem_append.mp hc with hc | hc
    · exact (h.joins c hc).mono le_rfl h'.made (List.subset_append_left roots roots')
    · exact (h'.joins c hc).mono h.made.length_le (.refl _) (List.subset_append_right roots roots')

end Joins

section Turns

variable {ε σ ι : Type} {call : EStateM (Stop ε) σ (Option ι)} {rest : EStateM (Stop ε) σ (List ι)}
  {s t u : σ}

/-- What a turn of the loop adds to the futures. -/
def joined : Except ε (Option ι) → List ι
  | .ok (some future) => [future]
  | .ok none | .error _ => []

theorem callNext_ok {r : Except ε (Option ι)} {futures : List ι}
    (h : Lock.caught call s = .ok r t) (h' : rest t = .ok futures u) :
    callNext call rest s = .ok (joined r ++ futures) u := by
  unfold callNext
  rw [bind_ok h, bind_ok h']
  rcases r with _ | _ | future
  · rfl
  · rfl
  · rfl

end Turns

section Trees

variable {τ : Type}

/-- What holds of a collection as soon as it holds of its callbacks holds of all callbacks. -/
theorem Callback.induction {P : Callback V → Prop} (leaf : ∀ id, P (.leaf id))
    (collection : ∀ id sender callbacks weakCallbacks, (∀ cb ∈ callbacks ++ weakCallbacks, P cb) →
      P (.collection id sender callbacks weakCallbacks)) (cb : Callback V) : P cb := by
  apply @Callback.rec V P (fun cbs => ∀ cb ∈ cbs, P cb) leaf
  · intro id sender callbacks weakCallbacks ih ih'
    apply collection id sender callbacks weakCallbacks
    exact List.forall_mem_append.mpr ⟨ih, ih'⟩
  · exact List.forall_mem_nil P
  · intro cb cbs ih ih'
    exact List.forall_mem_cons.mpr ⟨ih, ih'⟩

theorem collectEach_eq (leaf : ℕ → List τ) (collection : ℕ → V → List τ → List τ)
    (cbs : List (Callback V)) :
    collectEach leaf collection cbs = cbs.flatMap (Callback.collect leaf collection) := by
  induction cbs with
  | nil => rfl
  | cons cb cbs ih => rw [collectEach, ih, List.flatMap_cons]

theorem collect_collection (leaf : ℕ → List τ) (collection : ℕ → V → List τ → List τ) (id : ℕ)
    (sender : V) (callbacks weakCallbacks : List (Callback V)) :
    (Callback.collection id sender callbacks weakCallbacks).collect leaf collection =
      collection id sender
        ((callbacks ++ weakCallbacks).flatMap (Callback.collect leaf collection)) := by
  rw [Callback.collect, collectEach_eq, collectEach_eq, List.flatMap_append]

variable (id : ℕ) (sender : V) (callbacks weakCallbacks : List (Callback V))

theorem collections_collection :
    (Callback.collection id sender callbacks weakCallbacks).collections =
      id :: (callbacks ++ weakCallbacks).flatMap Callback.collections :=
  collect_collection ..

theorem calls_collection (a : Arguments V) :
    (Callback.collection id sender callbacks weakCallbacks).calls a =
      (callbacks ++ weakCallbacks).flatMap fun cb => cb.calls (a.cons sender) := by
  unfold Callback.calls Callback.paths
  rw [collect_collection, List.map_map, List.map_flatMap]
  refine List.flatMap_congr fun cb _ => List.map_congr_left fun p _ => ?_
  simp only [Function.comp_apply, List.foldr_append, List.foldr_cons, List.foldr_nil]

theorem map_paths (cb : Callback V) : cb.paths.map Prod.fst = cb.leaves := by
  induction cb using Callback.induction with
  | leaf id => rfl
  | collection id sender callbacks weakCallbacks ih =>
    unfold Callback.paths Callback.leaves
    rw [collect_collection, collect_collection, List.map_map, List.map_flatMap]
    exact List.flatMap_congr fun cb hcb => ih cb hcb

theorem callEach_eq (cbs cbs' : List (Callback V)) (a : Arguments V) :
    callEach answer cbs a (callAll (fun cb => cb.turn answer a) cbs') =
      callAll (fun cb => cb.turn answer a) (cbs ++ cbs') := by
  induction cbs with
  | nil => rfl
  | cons cb cbs ih =>
    rw [callEach, ih]
    rfl

theorem call_collection (a : Arguments V) :
    (Callback.collection id sender callbacks weakCallbacks).call answer a =
      dispatch (World.lock id)
        (callAll (fun cb => cb.turn answer (a.cons sender)) (callbacks ++ weakCallbacks)) gather
        (.awaitable .stub) := by
  rw [Callback.call, ← callEach_eq, ← List.append_nil weakCallbacks, ← callEach_eq,
    List.append_nil]
  rfl

end Trees

section Turns

variable {id : ℕ} {sender : V} {callbacks weakCallbacks : List (Callback V)}

theorem get_created (l : List (Future (Work V))) (f : Future (Work V)) :
    (l ++ [f])[l.length]? = some f := by
  simp

variable (answer) in
/-- A turn of the loop never raises, and calls the leaves of the callback. -/
def Turns (cb : Callback V) : Prop :=
  ∀ (a : Arguments V) (w : World V), cb.collections.Nodup →
    (∀ c ∈ cb.collections, c ∉ w.held) → ∃ r w',
      Lock.caught (cb.turn answer a) w = .ok r w' ∧ Called answer w w' (joined r) (cb.calls a)

/-- A leaf has been called, and the roots wait for what it has returned. -/
theorem Called.leaf {id : ℕ} {a : Arguments V} (hheld : w'.held = w.held)
    (hinvoked : w'.invoked = w.invoked ++ [(id, a)]) (hmade : Made w.futures w'.futures)
    (hj : Joins answer w.futures.length w'.futures roots (id, a)) :
    Called answer w w' roots ((Callback.leaf id).calls a) where
  held := hheld
  invoked := hinvoked
  made := hmade
  joins c hc := by
    obtain rfl := List.mem_singleton.mp hc
    exact hj

theorem leaf_turns (id : ℕ) : Turns answer (.leaf id) := by
  intro a w _ _
  have hcall : (Callback.leaf id).call answer a w =
      (answer id a).exec id a { w with invoked := w.invoked ++ [(id, a)] } := rfl
  cases hr : answer id a with
  | raises exc =>
    rw [hr] at hcall
    refine ⟨_, _, Lock.caught_raised (bind_error hcall), Called.leaf rfl rfl (.refl _) ?_⟩
    simp only [Joins, hr, Answer.IsAwaitable, false_implies]
  | plain =>
    rw [hr] at hcall
    refine ⟨_, _, Lock.caught_ok ((bind_ok hcall).trans rfl), Called.leaf rfl rfl (.refl _) ?_⟩
    simp only [Joins, hr, Answer.IsAwaitable, false_implies]
  | awaitable =>
    rw [hr] at hcall
    refine ⟨_, _, Lock.caught_ok ((bind_ok hcall).trans rfl),
      Called.leaf rfl rfl (made_append _ (.task (Work.leaf id a))) ?_⟩
    intro
    refine ⟨w.futures.length, ?_, _, List.mem_singleton_self _, .refl _⟩
    simp only [Awaited, hr]
    exact ⟨le_rfl, get_created _ _⟩
  | future i =>
    rw [hr] at hcall
    refine ⟨_, _, Lock.caught_ok ((bind_ok hcall).trans rfl), Called.leaf rfl rfl (.refl _) ?_⟩
    intro
    refine ⟨i, ?_, i, List.mem_singleton_self i, .refl i⟩
    simp only [Awaited, hr]

/-- The loop calls the leaves of all callbacks. -/
theorem callAll_called {cbs : List (Callback V)} (h : ∀ cb ∈ cbs, Turns answer cb)
    (a : Arguments V) (hn : (cbs.flatMap Callback.collections).Nodup)
    (hf : ∀ c ∈ cbs.flatMap Callback.collections, c ∉ w.held) : ∃ futures w',
      callAll (fun cb => cb.turn answer a) cbs w = .ok futures w' ∧
        Called answer w w' futures (cbs.flatMap fun cb => cb.calls a) := by
  induction cbs generalizing w with
  | nil => exact ⟨[], w, rfl, rfl, (List.append_nil _).symm, .refl _, by simp⟩
  | cons cb cbs ih =>
    rw [List.flatMap_cons] at hn hf
    obtain ⟨r, w₁, hr, hc⟩ := h cb List.mem_cons_self a w hn.of_append_left
      fun c hc => hf c (List.mem_append_left _ hc)
    obtain ⟨futures, w₂, hr', hc'⟩ := ih (fun cb hcb => h cb (List.mem_cons_of_mem _ hcb))
      hn.of_append_right fun c hc' => hc.held ▸ hf c (List.mem_append_right _ hc')
    exact ⟨_, w₂, callNext_ok hr hr', hc.append hc'⟩

/-- The call of a collection calls the leaves, and the gather that it returns waits for them. -/
theorem call_called (h : ∀ cb ∈ callbacks ++ weakCallbacks, Turns answer cb) (a : Arguments V)
    (hn : (Callback.collection id sender callbacks weakCallbacks).collections.Nodup)
    (hf : ∀ c ∈ (Callback.collection id sender callbacks weakCallbacks).collections,
      c ∉ w.held) : ∃ r w',
      (Callback.collection id sender callbacks weakCallbacks).call answer a w = .ok r w' ∧
      ((r = .awaitable .stub ∧ Called answer w w' []
          ((Callback.collection id sender callbacks weakCallbacks).calls a)) ∨
        ∃ i futures, r = .future i ∧ w.futures.length ≤ i ∧
          w'.futures[i]? = some ⟨.gather futures true, none⟩ ∧
          Called answer w w' [i]
            ((Callback.collection id sender callbacks weakCallbacks).calls a)) := by
  rw [collections_collection] at hn hf
  rw [calls_collection, call_collection]
  have hfree := hf id List.mem_cons_self
  obtain ⟨futures, w₁, hr, hc⟩ := callAll_called (w := (World.lock id).set true w) h
    (a.cons sender) (List.nodup_cons.mp hn).2 fun c hc hheld => by
      rcases Finset.mem_insert.mp hheld with rfl | hheld
      · exact (List.nodup_cons.mp hn).1 hc
      · exact hf c (List.mem_cons_of_mem _ hc) hheld
  have hhold := Lock.hold_ok (l := World.lock id) (decide_eq_false hfree) hr
  have hheld : ((World.lock id).set false w₁).held = w.held := by
    change w₁.held.erase id = w.held
    rw [hc.held]
    exact Finset.erase_insert hfree
  unfold dispatch
  rw [bind_ok hhold]
  cases futures with
  | nil => exact ⟨_, _, rfl, Or.inl ⟨rfl, hheld, hc.invoked, hc.made, hc.joins⟩⟩
  | cons future futures =>
    have hmade := made_append w₁.futures (.gather (future :: futures) true)
    refine ⟨_, _, rfl, Or.inr ⟨w₁.futures.length, future :: futures, rfl, hc.made.length_le,
      get_created _ _, hheld, hc.invoked, hc.made.trans hmade, fun c hmem => ?_⟩⟩
    exact (hc.joins c hmem).gather hmade hc.made.length_le (get_created _ _)

theorem turns (cb : Callback V) : Turns answer cb := by
  induction cb using Callback.induction with
  | leaf id => exact leaf_turns id
  | collection id sender callbacks weakCallbacks ih =>
    intro a w hn hf
    obtain ⟨r, w', hr, ⟨rfl, hc⟩ | ⟨i, futures, rfl, -, -, hc⟩⟩ := call_called ih a hn hf
    · -- a task is made of the stub
      have hmade := made_append w'.futures (.task .stub)
      refine ⟨_, _, Lock.caught_ok ((bind_ok hr).trans rfl), hc.held, hc.invoked,
        hc.made.trans hmade, fun c hmem => ?_⟩
      exact (hc.joins c hmem).mono le_rfl hmade (List.nil_subset _)
    · exact ⟨_, w', Lock.caught_ok ((bind_ok hr).trans rfl), hc⟩

end Turns

/-- A call of a tree of collections, none of which is being called, does not raise and calls every
leaf once, with the senders on its path and the arguments. What it returns does not raise, and is
not done before all that the leaves have returned to be awaited. -/
theorem call_joins (answer : ℕ → Arguments V → Answer E) (id : ℕ) (sender : V)
    (callbacks weakCallbacks : List (Callback V)) (root : Callback V)
    (hroot : root = .collection id sender callbacks weakCallbacks)
    (hcollections : root.collections.Nodup) (hleaves : root.leaves.Nodup) (a : Arguments V)
    (w : World V) (hfree : ∀ c ∈ root.collections, c ∉ w.held) :
    ∃ r w', root.call answer a w = .ok r w' ∧ w'.held = w.held ∧
      w'.invoked = w.invoked ++ root.paths.map (fun p => (p.1, p.2.foldr Arguments.cons a)) ∧
      (∀ leaf ∈ root.leaves, (root.paths.map Prod.fst).count leaf = 1) ∧
      ∀ as l o, Run Future.step (fun _ _ => True) w'.futures as l → r.Ends l o →
        o = .returned ∧ ∀ p ∈ root.paths,
          Completed answer w w' l (p.1, p.2.foldr Arguments.cons a) := by
  subst hroot
  obtain ⟨r, w', hr, h⟩ := call_called (fun cb _ => turns cb) a hcollections hfree
  refine ⟨r, w', hr, ?_⟩
  have hcount : ∀ leaf ∈ Callback.leaves (.collection id sender callbacks weakCallbacks),
      ((Callback.paths (.collection id sender callbacks weakCallbacks)).map Prod.fst).count leaf =
        1 := by
    intro leaf hleaf
    rw [map_paths]
    exact List.count_eq_one_of_mem hleaves hleaf
  rcases h with ⟨rfl, hc⟩ | ⟨i, futures, rfl, hi, hget, hc⟩
  · refine ⟨hc.held, hc.invoked, hcount, fun as l o hrun ho => ⟨ho, fun p hp => ?_⟩⟩
    have hjoins := hc.joins _ (List.mem_map_of_mem hp)
    exact hjoins.completed (later_run hrun) (hc.made.joined.run hrun) (List.forall_mem_nil _)
  · refine ⟨hc.held, hc.invoked, hcount, fun as l o hrun ho => ?_⟩
    have hl := later_run hrun
    have hj := hc.made.joined.run hrun
    obtain ⟨⟨kind, outcome⟩, hf, rfl, -⟩ := hl i _ hget
    obtain ⟨f, hf', ho⟩ := ho
    obtain rfl := Option.some.inj (hf.symm.trans hf')
    obtain rfl : outcome = some o := ho
    have hd : Done l i := ⟨_, hf, rfl⟩
    refine ⟨(hj i _ o hi hf).1, fun p hp => ?_⟩
    have hjoins := hc.joins _ (List.mem_map_of_mem hp)
    exact hjoins.completed hl hj (List.forall_mem_singleton.mpr hd)

def closeCallbacks : Callback ℕ :=
  .collection 0 10 [.leaf 1, .leaf 2]
    [.collection 1 20 [.leaf 3] [], .collection 2 30 [] []]

/-- One callback raises, one returns a future, and one a coroutine. -/
def answers : ℕ → Arguments ℕ → Answer Unit
  | 1, _ => .raises ()
  | 2, _ => .future 0
  | _, _ => .awaitable

def closing : Arguments ℕ where
  args := [7]
  kwargs := []
  self_notMem := by simp

def openWorld : World ℕ := ⟨∅, [⟨.task .stub, none⟩], []⟩

/-- All of them are called, and what the call returns is done at last. -/
theorem close_callbacks_join : ∃ r w' as l,
    closeCallbacks.call answers closing openWorld = .ok r w' ∧
    w'.invoked.map (fun c => (c.1, c.2.args)) = [(1, [10, 7]), (2, [10, 7]), (3, [20, 10, 7])] ∧
    Run Future.step (fun _ _ => True) w'.futures as l ∧ r.Ends l .returned ∧
    ∀ p ∈ closeCallbacks.paths,
      Completed answers openWorld w' l (p.1, p.2.foldr Arguments.cons closing) := by
  obtain ⟨r, w', hr, -, -, -, h⟩ := call_joins answers 0 10 _ _ closeCallbacks rfl (by decide)
    (by decide) closing openWorld fun c _ => Finset.notMem_empty c
  obtain ⟨u, hu, hinvoked, l, hl, hf⟩ : ∃ u,
      closeCallbacks.call answers closing openWorld = .ok (.future 4) u ∧
      u.invoked.map (fun c => (c.1, c.2.args)) = [(1, [10, 7]), (2, [10, 7]), (3, [20, 10, 7])] ∧
      ∃ l, checked Future.step (fun _ _ => True) u.futures
        [.ended 0 .raised, .ended 1 .cancelled, .gathered 2 .returned, .ended 3 .returned,
          .gathered 4 .returned] = some l ∧ ∃ f ∈ l[4]?, f.outcome = some .returned :=
    ⟨_, rfl, rfl, _, rfl, _, rfl, rfl⟩
  obtain ⟨rfl, rfl⟩ := EStateM.Result.ok.inj (hr.symm.trans hu)
  have hrun := run_of_checked hl
  exact ⟨_, _, _, l, hr, hinvoked, hrun, hf, (h _ l .returned hrun hf).2⟩

end AioPika.CallbackCollection
