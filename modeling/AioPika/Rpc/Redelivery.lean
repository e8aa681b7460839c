import AioPika.Foundation.Shelves
import AioPika.Rpc.Executions
import Mathlib.Data.List.Flatten

/-! # How often a request is executed

The broker has as many copies of a request as it has put back into the queues
since it got the request: a copy is in a queue, or it was delivered to a run that
executes it once at most.
-/

namespace AioPika.Rpc

theorem ids_step {Id B V : Type*} [DecidableEq Id] {codec : Codec Id B V} {s t : State Id B V}
    {a : Action Id B V} (hs : step codec s a = some t) (ha : ∀ id, a ≠ .call id) :
    t.made.map Future.correlationId = s.made.map Future.correlationId := by
  have hk : Kept s t := kept_step hs ha
  refine List.ext_getElem (by simp [hk.length]) fun i hi hi' => ?_
  rw [List.length_map] at hi
  obtain ⟨g, hg, hid, -⟩ := hk.pending i _ (List.getElem?_eq_getElem hi)
  obtain ⟨hlt, rfl⟩ := List.getElem?_eq_some_iff.mp hg
  rw [List.getElem_map, List.getElem_map, hid]

end AioPika.Rpc

namespace AioPika.Rpc.Network

variable {B V : Type}

def Packet.ids (k : Packet B) : List String := k.message.correlationId.toList

def Delivery.ids (d : Delivery B V) : List String := d.packet.ids

def Callee.ids (e : Callee B V) : List String := (e.requests ++ e.runs).flatMap Delivery.ids

/-- The message of a call that is not being published any more. -/
def Call.taken (call : Call B) : List String :=
  if call.stage = .publishing then [] else call.packet.ids

def Caller.taken (c : Caller B V) : List String := c.calls.flatMap Call.taken

def Caller.made (c : Caller B V) : List String := c.rpc.made.map Future.correlationId

/-- Calls are made under ids that no instance has made before. -/
def Fresh (s : System B V) : NetworkAction V → Prop
  | .call _ id _ _ _ _ => ∀ c ∈ s.callers, id ∉ c.made
  | _ => True

instance (s : System B V) : DecidablePred (Fresh s)
  | .call _ id _ _ _ _ =>
    inferInstanceAs (Decidable (∀ c ∈ s.callers, id ∉ c.made))
  | .route _ _ | .publishRaised _ _ | .messageReturned _ _ | .resultMessage _ _
  | .deserialized _ _ | .interrupted _ _ | .cancelled _ _ | .removed _ _ | .onClose _ _ | .lost _
  | .register _ _ | .deliver _ _ _ | .handle _ _ | .event _ _ _ | .reply _ _ | .settle _ _
  | .expire _ _ | .declareQueue _ | .bind _ _ | .deleteQueue _ => .isTrue trivial

namespace System

variable (s : System B V) (x : String)

/-- The copies of a request that the broker has made. -/
def copies : ℕ :=
  Custody.stock (List.flatMap Packet.ids) s.queues x + Custody.count Callee.ids s.callees x

/-- How often the broker may have got a request, and put it back. -/
def issues : ℕ := Custody.count Caller.taken s.callers x + Custody.count Packet.ids s.redelivered x

/-- How often functions were called for a request. -/
def executions : ℕ :=
  Custody.count (fun e : Callee B V => (e.runs.filter fun d => d.executed.isSome).flatMap
    Delivery.ids) s.callees x

end System

variable {cfg : Config B V} {s t : System B V} {a : NetworkAction V} {x : String}

theorem requeue_isSome (queues : Dict String (List (Packet B))) (d : Delivery B V)
    (key : String) : ((requeue queues d).get? key).isSome = (queues.get? key).isSome := by
  unfold requeue
  split
  · rename_i ks hk
    rw [Dict.get?_set]
    split
    · rename_i he
      rw [he, hk]
      rfl
    · rfl
  · rfl

theorem stock_requeue (ds : List (Delivery B V)) (queues : Dict String (List (Packet B))) :
    Custody.stock (List.flatMap Packet.ids) (ds.foldl requeue queues) x ≤
      Custody.stock (List.flatMap Packet.ids) queues x +
        Custody.count Packet.ids (returning queues ds) x := by
  induction ds generalizing queues with
  | nil => exact Nat.le_refl _
  | cons d ds ih =>
    have htail := ih (requeue queues d)
    have hsame : returning (requeue queues d) ds = returning queues ds := by
      simp only [returning, requeue_isSome]
    rw [hsame] at htail
    rw [List.foldl_cons]
    cases hk : queues.get? d.queue with
    | none =>
      have hout : returning queues (d :: ds) = returning queues ds := by simp [returning, hk]
      have hq : requeue queues d = queues := by simp [requeue, hk]
      rw [hout]
      rw [hq] at htail ⊢
      exact htail
    | some ks =>
      have hin : returning queues (d :: ds) = d.packet :: returning queues ds := by
        simp [returning, hk]
      have hq : requeue queues d = queues.set d.queue (d.packet :: ks) := by simp [requeue, hk]
      have hset := Custody.stock_set (List.flatMap Packet.ids) x (d.packet :: ks) hk
      rw [List.flatMap_cons, List.count_append] at hset
      rw [hin, Custody.count_cons]
      rw [hq] at htail ⊢
      omega

theorem Callee.count_ids {e : Callee B V} : e.ids.count x =
    Custody.count Delivery.ids e.requests x + Custody.count Delivery.ids e.runs x := by
  rw [Callee.ids, List.flatMap_append, List.count_append, Custody.count_flatMap,
    Custody.count_flatMap]

theorem Caller.count_taken_set (x : String) (stage : Stage) (returns : List (Packet B))
    {c : Caller B V} {n : ℕ} {call : Call B} (hn : c.calls[n]? = some call)
    (hs : call.stage = .publishing) (hne : stage ≠ .publishing) :
    (Caller.taken { c with
      calls := c.calls.set n { call with stage := stage }, returns := returns }).count x =
      c.taken.count x + call.packet.ids.count x := by
  have hset := @Custody.count_set _ _ _ Call.taken _ _ { call with stage := stage } x _ hn
  simp only [Caller.taken, Custody.count_flatMap]
  simp only [Call.taken, if_pos hs, if_neg hne, List.count_nil, Nat.add_zero] at hset
  exact hset

@[simp] theorem copies_toResults {queue : Option String} {m : Message String B} :
    (s.toResults cfg queue m).copies x = s.copies x := by
  rcases toResults_cases queue m with he | ⟨p, c, -, -, he⟩
  · rw [he]
  · rw [he]
    rfl

@[simp] theorem issues_toResults {queue : Option String} {m : Message String B} :
    (s.toResults cfg queue m).issues x = s.issues x := by
  rcases toResults_cases queue m with he | ⟨p, c, hp, -, he⟩
  · rw [he]
  · rw [he]
    have hset := @Custody.count_set _ _ _ Caller.taken _ _
      { c with results := c.results ++ [m] } x _ hp
    exact congrArg (· + _) (Nat.add_right_cancel hset)

theorem accounted_setCaller (h : s.copies x ≤ s.issues x) {p : ℕ} {c c' : Caller B V}
    (hp : s.callers[p]? = some c) (hc : c'.taken.count x = c.taken.count x) :
    (s.setCaller p c').copies x ≤ (s.setCaller p c').issues x := by
  have hset := @Custody.count_set _ _ _ Caller.taken _ _ c' x _ hp
  simp only [System.copies, System.issues, System.setCaller] at h ⊢
  omega

theorem accounted_setCallee (h : s.copies x ≤ s.issues x) {q : ℕ} {e e' : Callee B V}
    (hq : s.callees[q]? = some e) (he : e'.ids.count x = e.ids.count x) :
    (s.setCallee q e').copies x ≤ (s.setCallee q e').issues x := by
  have hset := @Custody.count_set _ _ _ Callee.ids _ _ e' x _ hq
  simp only [System.copies, System.issues, System.setCallee] at h ⊢
  omega

theorem Callee.count_ids_set {e : Callee B V} {j : ℕ} {d d' : Delivery B V}
    {server : Server V}
    (hd : e.runs[j]? = some d) (hp : d'.packet = d.packet) :
    (Callee.ids { e with server := server, runs := e.runs.set j d' }).count x = e.ids.count x := by
  have hset := @Custody.count_set _ _ _ Delivery.ids _ _ d' x _ hd
  rw [Callee.count_ids, Callee.count_ids]
  simp only [Delivery.ids, hp] at hset ⊢
  omega

/-- Every copy of a request was got from its caller, or put back. -/
theorem copies_step (h : s.copies x ≤ s.issues x) (hs : step cfg s a = some t) :
    t.copies x ≤ t.issues x := by
  cases step_cases hs with
  | call hp => exact accounted_setCaller h hp (by simp [Caller.taken, Call.taken])
  | unserializable hp => exact accounted_setCaller h hp rfl
  | @queued p n c call ks hp hn hstage hq =>
    have hqueue := Custody.stock_set (List.flatMap Packet.ids) x (ks ++ [call.packet]) hq
    have hcaller := @Custody.count_set _ _ _ Caller.taken _ _
      { c with calls := c.calls.set n { call with stage := .queued } } x _ hp
    have htaken := Caller.count_taken_set x .queued c.returns hn hstage (by decide)
    rw [List.flatMap_append, List.count_append, List.flatMap_singleton] at hqueue
    simp only [System.copies, System.issues, System.setCaller] at h ⊢
    omega
  | @unroutable p n c call hp hn hstage =>
    have hcaller := @Custody.count_set _ _ _ Caller.taken _ _
      { c with
        calls := c.calls.set n { call with stage := .returned }
        returns := c.returns ++ [call.packet] } x _ hp
    have htaken := Caller.count_taken_set x .returned (c.returns ++ [call.packet]) hn hstage
      (by decide)
    simp only [System.copies, System.issues, System.setCaller] at h ⊢
    omega
  | @publishRaised p n c call hp hn hstage =>
    have hcaller := @Custody.count_set _ _ _ Caller.taken _ _
      { c with calls := c.calls.set n { call with stage := .failed } } x _ hp
    have htaken := Caller.count_taken_set x .failed c.returns hn hstage (by decide)
    simp only [System.copies, System.issues, System.setCaller] at h ⊢
    omega
  | messageReturned hp => exact accounted_setCaller h hp rfl
  | resultMessage hp => exact accounted_setCaller h hp rfl
  | future hp => exact accounted_setCaller h hp rfl
  | onClose hp => exact accounted_setCaller h hp rfl
  | @lost p c e hp hq =>
    have hcaller := @Custody.count_set _ _ _ Caller.taken _ _ c.lose x _ hp
    have hcallee := @Custody.count_set _ _ _ Callee.ids _ _ e.forget x _ hq
    have hqueue := stock_requeue (x := x) e.outstanding s.queues
    have hforget : e.forget.ids.count x = e.ids.count x := by
      simp only [Callee.ids, Callee.forget, ← List.map_append, List.flatMap_map]
      rfl
    have hlose : c.taken.count x ≤ c.lose.taken.count x := by
      simp only [Caller.taken, Custody.count_flatMap, Caller.lose]
      refine Custody.count_map_le fun call => ?_
      split
      · rename_i hstage
        simp [Call.taken, hstage]
      · exact Nat.le_refl _
    simp only [System.copies, System.issues, Custody.count_append] at h ⊢
    omega
  | register hq => exact accounted_setCallee h hq rfl
  | @deliver q consumer n e member ks k server hq hc hk hn hserve =>
    have hqueue := Custody.stock_set (List.flatMap Packet.ids) x (ks.eraseIdx n) hk
    have herase := Custody.count_eraseIdx Packet.ids x hn
    have hcallee := @Custody.count_set _ _ _ Callee.ids _ _
      { e with
        server := server
        requests := e.requests ++ [⟨k, (cfg.rpc q).formatRoutingKey member.method, true,
          none, none, none, false⟩] } x _ hq
    rw [Callee.count_ids, Callee.count_ids] at hcallee
    rw [Custody.count_flatMap, Custody.count_flatMap] at hqueue
    simp only [Custody.count_append, Custody.count_cons, Custody.count_nil, Delivery.ids] at hcallee
    simp only [System.copies, System.issues, System.setCallee] at h ⊢
    omega
  | @handle q n e d server hq hd hserve =>
    refine accounted_setCallee h hq ?_
    have herase := Custody.count_eraseIdx Delivery.ids x hd
    rw [Callee.count_ids, Callee.count_ids]
    simp only [Custody.count_append, Custody.count_cons, Custody.count_nil]
    omega
  | event hq hd => exact accounted_setCallee h hq (Callee.count_ids_set hd rfl)
  | reply hq hd =>
    rw [copies_toResults, issues_toResults]
    exact accounted_setCallee h hq (Callee.count_ids_set hd rfl)
  | acked hq hd => exact accounted_setCallee h hq (Callee.count_ids_set hd rfl)
  | rejected hq hd =>
    rw [copies_toResults, issues_toResults]
    exact accounted_setCallee h hq (Callee.count_ids_set hd rfl)
  | @expire queue n ks k hk hn =>
    have hqueue := Custody.stock_set (List.flatMap Packet.ids) x (ks.eraseIdx n) hk
    have herase := Custody.count_eraseIdx Packet.ids x hn
    rw [Custody.count_flatMap, Custody.count_flatMap] at hqueue
    rw [copies_toResults, issues_toResults]
    simp only [System.copies, System.issues] at h ⊢
    omega
  | declared => exact h
  | declareQueue hq =>
    have hqueue := Custody.stock_set_new (List.flatMap Packet.ids) x [] hq
    rw [List.flatMap_nil, List.count_nil] at hqueue
    simp only [System.copies, System.issues] at h ⊢
    omega
  | bind => exact h
  | @deleteQueue queue =>
    have hqueue := Custody.stock_pop_le (List.flatMap Packet.ids) s.queues queue x
    simp only [System.copies, System.issues] at h ⊢
    omega

/-- No id is made twice, and the messages of the calls carry the ids that were made. -/
structure Numbered (s : System B V) : Prop where
  unique : ∀ x, Custody.count Caller.made s.callers x ≤ 1
  listed : ∀ c ∈ s.callers, ((c.calls.map Call.packet).flatMap Packet.ids).Sublist c.made

theorem map_packet_set {calls : List (Call B)} {n : ℕ} {call : Call B} {stage : Stage}
    (hn : calls[n]? = some call) :
    (calls.set n { call with stage := stage }).map Call.packet = calls.map Call.packet := by
  obtain ⟨hlt, rfl⟩ := List.getElem?_eq_some_iff.mp hn
  have hlt' : n < (calls.map Call.packet).length := by simpa using hlt
  rw [List.map_set]
  conv_rhs => rw [← List.set_getElem_self hlt']
  rw [List.getElem_map]

theorem Numbered.set (h : Numbered s) {y : System B V} {p : ℕ} {c c' : Caller B V}
    (hp : s.callers[p]? = some c) (hy : y.callers = s.callers.set p c') (hm : c'.made = c.made)
    (hc : c'.calls.map Call.packet = c.calls.map Call.packet) : Numbered y := by
  constructor
  · intro x
    have hset := @Custody.count_set _ _ _ Caller.made _ _ c' x _ hp
    have hx := h.unique x
    rw [hm] at hset
    rw [hy]
    omega
  · intro d hd
    rw [hy] at hd
    rcases List.mem_or_eq_of_mem_set hd with hd | rfl
    · exact h.listed d hd
    · rw [hm, hc]
      exact h.listed c (List.mem_of_getElem? hp)

theorem Numbered.of_callers {y : System B V} (h : Numbered s) (hy : y.callers = s.callers) :
    Numbered y := by
  constructor
  · rw [hy]
    exact h.unique
  · rw [hy]
    exact h.listed

theorem Numbered.toResults (h : Numbered s) (queue : Option String) (m : Message String B) :
    Numbered (s.toResults cfg queue m) := by
  rcases toResults_cases queue m with he | ⟨p, c, hp, -, he⟩
  · rw [he]
    exact h
  · rw [he]
    exact h.set hp rfl rfl rfl

theorem Numbered.call (h : Numbered s) {p : ℕ} {c c' : Caller B V} {id : String}
    (hp : s.callers[p]? = some c) (hid : ∀ c ∈ s.callers, id ∉ c.made)
    (hm : c'.made = c.made ++ [id])
    (hc : ((c'.calls.map Call.packet).flatMap Packet.ids).Sublist
      ((c.calls.map Call.packet).flatMap Packet.ids ++ [id])) : Numbered (s.setCaller p c') := by
  constructor
  · intro x
    have hset := @Custody.count_set _ _ _ Caller.made _ _ c' x _ hp
    have hx := h.unique x
    rw [hm, List.count_append] at hset
    simp only [System.setCaller]
    by_cases he : id = x
    · subst he
      have hzero : Custody.count Caller.made s.callers id = 0 := Custody.count_eq_zero.mpr hid
      rw [List.count_singleton_self] at hset
      omega
    · rw [List.count_singleton, if_neg (by simpa using he)] at hset
      omega
  · intro d hd
    rcases List.mem_or_eq_of_mem_set hd with hd | rfl
    · exact h.listed d hd
    · rw [hm]
      exact hc.trans ((h.listed c (List.mem_of_getElem? hp)).append_right _)

theorem numbered_step (h : Numbered s) (ho : Fresh s a) (hs : step cfg s a = some t) :
    Numbered t := by
  have hsame : ∀ {c : Caller B V} {r : State String B V} {b : Action String B V},
      Rpc.step cfg.codec c.rpc b = some r → (∀ id, b ≠ .call id) →
      r.made.map Future.correlationId = c.made :=
    fun hr hb => ids_step hr hb
  have hcall : ∀ {c : Caller B V} {r : State String B V} {id : String},
      Rpc.step cfg.codec c.rpc (.call id) = some r →
      r.made.map Future.correlationId = c.made ++ [id] := by
    intro c r id hr
    obtain rfl := Option.some.inj hr
    exact List.map_append
  cases step_cases hs with
  | call hp hr hb =>
    refine h.call hp ho (hcall hr) ?_
    rw [List.map_append, List.flatMap_append]
    exact List.Sublist.refl _
  | unserializable hp hr => exact h.call hp ho (hcall hr) (List.sublist_append_left _ _)
  | queued hp hn => exact h.set hp rfl rfl (map_packet_set hn)
  | unroutable hp hn => exact h.set hp rfl rfl (map_packet_set hn)
  | publishRaised hp hn => exact h.set hp rfl rfl (map_packet_set hn)
  | messageReturned hp hn hr => exact h.set hp rfl (hsame hr nofun) rfl
  | resultMessage hp hn hr => exact h.set hp rfl (hsame hr nofun) rfl
  | future hp hr hb =>
    refine h.set hp rfl (hsame hr ?_) rfl
    rcases hb with ⟨j, -, rfl⟩ | ⟨j, -, rfl⟩ | ⟨j, -, rfl⟩ | ⟨j, -, rfl⟩ <;> nofun
  | onClose hp hr => exact h.set hp rfl (hsame hr nofun) rfl
  | lost hp =>
    refine h.set hp rfl rfl ?_
    simp only [Caller.lose, List.map_map]
    refine List.map_congr_left fun call _ => ?_
    simp only [Function.comp_apply]
    split <;> rfl
  | reply =>
    refine Numbered.toResults ?_ _ _
    exact h.of_callers rfl
  | rejected =>
    refine Numbered.toResults ?_ _ _
    exact h.of_callers rfl
  | expire =>
    refine Numbered.toResults ?_ _ _
    exact h.of_callers rfl
  | _ => exact h.of_callers rfl

theorem Call.taken_sublist {call : Call B} : call.taken.Sublist call.packet.ids := by
  unfold Call.taken
  split
  · exact List.nil_sublist _
  · exact List.Sublist.refl _

/-- The message of a call is got from its caller once at most. -/
theorem Numbered.taken_le (h : Numbered s) : Custody.count Caller.taken s.callers x ≤ 1 := by
  have hle : ∀ cs : List (Caller B V),
      (∀ c ∈ cs, ((c.calls.map Call.packet).flatMap Packet.ids).Sublist c.made) →
      Custody.count Caller.taken cs x ≤ Custody.count Caller.made cs x := by
    intro cs hcs
    induction cs with
    | nil => exact Nat.le_refl _
    | cons c cs ih =>
      have htail := ih fun c hc => hcs c (List.mem_cons_of_mem _ hc)
      have hhead : c.taken.count x ≤ c.made.count x := by
        refine Nat.le_trans (List.Sublist.count_le x ?_) ((hcs c List.mem_cons_self).count_le x)
        rw [List.flatMap_map]
        exact List.Sublist.flatMap_right _ fun _ _ => Call.taken_sublist
      rw [Custody.count_cons, Custody.count_cons]
      omega
  exact Nat.le_trans (hle s.callers h.listed) (h.unique x)

theorem fresh_numbered {n : ℕ} : Numbered (fresh n : System B V) := by
  constructor
  · intro x
    have hzero : Custody.count Caller.made (fresh n : System B V).callers x = 0 := by
      rw [Custody.count_eq_zero]
      intro c hc
      rw [List.eq_of_mem_replicate hc]
      exact List.not_mem_nil
    rw [hzero]
    exact Nat.zero_le 1
  · intro c hc
    rw [List.eq_of_mem_replicate hc]
    exact List.Sublist.refl _

theorem fresh_copies {n : ℕ} : (fresh n : System B V).copies x = 0 := by
  have hzero : Custody.count Callee.ids (fresh n : System B V).callees x = 0 := by
    rw [Custody.count_eq_zero]
    intro e he
    rw [List.eq_of_mem_replicate he]
    exact List.not_mem_nil
  rw [System.copies, hzero]
  rfl

/-- Every run of `on_call_message` has its own copy. -/
theorem executions_le_copies : s.executions x ≤ s.copies x := by
  refine Nat.le_trans ?_ (Nat.le_add_left _ _)
  unfold System.executions
  induction s.callees with
  | nil => exact Nat.le_refl _
  | cons e es ih =>
    have hrun : ((e.runs.filter fun d => d.executed.isSome).flatMap Delivery.ids).count x ≤
        e.ids.count x := by
      refine List.Sublist.count_le x ?_
      rw [Callee.ids, List.flatMap_append]
      exact (List.Sublist.flatMap List.filter_sublist _).trans (List.sublist_append_right _ _)
    rw [Custody.count_cons, Custody.count_cons]
    omega

open Transition

/-- Functions are called for a request once, and once more for each time that the broker has put
it back into its queue. -/
theorem executions_bounded {n : ℕ} {as : List (NetworkAction V)}
    (hr : Run (step cfg) Fresh (fresh n) as s) (x : String) :
    s.executions x ≤ 1 + Custody.count Packet.ids s.redelivered x := by
  have hnumbered : Numbered s :=
    hr.invariant (fun _ _ _ h ho hs => numbered_step h ho hs) fresh_numbered
  have hissues : s.copies x ≤ s.issues x :=
    hr.invariant (I := fun s => s.copies x ≤ s.issues x) (fun _ _ _ h _ hs => copies_step h hs)
      (fresh_copies.trans_le (Nat.zero_le _))
  have htaken : Custody.count Caller.taken s.callers x ≤ 1 := hnumbered.taken_le
  have hcopies : s.copies x ≤
      Custody.count Caller.taken s.callers x + Custody.count Packet.ids s.redelivered x := hissues
  have hexec : s.executions x ≤ s.copies x := executions_le_copies
  omega

/-- Numbers that are their own bodies, and result queues that are told apart by their lengths. -/
def numbers : Config ℕ ℕ where
  codec := ⟨fun m => .ok m.body, fun _ => false, fun _ => false⟩
  serialize v := .ok v
  rpc _ := ⟨none, id, fun _ => 0⟩
  resultQueue p := String.ofList (List.replicate (p + 1) 'r')
  distinct p q h := by simpa using congrArg String.length h
  named p h := by simpa using congrArg String.length h

/-- Instance 1 serves `"square"`. -/
def serving : List (NetworkAction ℕ) :=
  [.declareQueue "square", .register 1 (.register "square" 7),
    .register 1 (.declared 0 "square"), .register 1 (.consumeOk 0), .register 1 (.registered 0)]

/-- The message of a call is executed, put back, and executed once more. -/
def executedAgain : List (NetworkAction ℕ) :=
  serving ++ [.call 0 "a" "square" 3 1 none, .route 0 0, .deliver 1 0 0, .handle 1 0,
    .event 1 0 .deserialize, .lost 1, .deliver 1 0 0, .handle 1 0, .event 1 1 .deserialize]

theorem executed_twice : ∃ s, Run (step numbers) Fresh (fresh 2) executedAgain s ∧
    s.executions "a" = 2 ∧ s.executions "a" ≤ 1 + Custody.count Packet.ids s.redelivered "a" := by
  obtain ⟨s, hs⟩ : ∃ s, checked (step numbers) Fresh (fresh 2) executedAgain = some s := ⟨_, rfl⟩
  refine ⟨s, run_of_checked hs, ?_, executions_bounded (run_of_checked hs) "a"⟩
  obtain rfl := Option.some.inj hs
  rfl

end AioPika.Rpc.Network
