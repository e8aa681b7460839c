import AioPika.Foundation.Settlements
import AioPika.Foundation.Shelves

/-! # Where the messages are

A message that was published is in a queue, or owed on a channel, or it was
settled for good, handed out unkept, or discarded with its queue. Its deliveries
are as many as the times that it came to a queue.
-/

namespace Deliveries

variable {κ α σ : Type}

def Ready.items (m : Ready α) : List α := [m.item]

/-- The message of an entry that was not delivered before. -/
def Ready.firsts (m : Ready α) : List α := if m.redelivered then [] else [m.item]

def Owed.items (o : Owed κ α) : List α := [o.item]

def Handle.items (h : Handle α σ) : List α := [h.item]

/-- The message of a first delivery. -/
def Handle.firsts (h : Handle α σ) : List α := if h.redelivered then [] else [h.item]

/-- The message of a delivery that was settled for good. -/
def Settled.final (r : Settled α) : List α := if r.note.verb = .requeue then [] else [r.item]

/-- The message of a delivery that was settled and went back to its queue. -/
def Settled.requeued (r : Settled α) : List α := if r.note.verb = .requeue then [r.item] else []

variable [DecidableEq α]

namespace Broker

variable (s : Broker κ α σ) (x : α)

def inQueues : ℕ := Custody.stock (List.flatMap Ready.items) s.queues x

def isOwed : ℕ :=
  Custody.count (fun c : Channel κ α σ => c.owed.flatMap Owed.items) s.channels x

def deliveries : ℕ :=
  Custody.count (fun c : Channel κ α σ => c.handles.flatMap Handle.items) s.channels x

/-- The deliveries, and the messages in queues, that were not delivered before. -/
def firsts : ℕ :=
  Custody.stock (List.flatMap Ready.firsts) s.queues x +
    Custody.count (fun c : Channel κ α σ => c.handles.flatMap Handle.firsts) s.channels x

def final : ℕ := Custody.count Settled.final s.settled x

def requeued : ℕ := Custody.count Settled.requeued s.settled x

/-- Every message that was published is somewhere. -/
def Conserved : Prop :=
  s.inQueues x + s.isOwed x + s.final x + s.handedOut.count x + s.discarded.count x =
    s.published.count x

/-- Every delivery is of a message that has come to a queue. -/
def Counted : Prop :=
  s.deliveries x + s.inQueues x + s.discarded.count x =
    s.published.count x + s.returned.count x + s.requeued x

end Broker

variable [DecidableEq κ] {client : Client σ} {s t : Broker κ α σ} {m : Option (ℕ × ℕ)} {x : α}
  {p : ℕ} {c c' : Channel κ α σ} {note : Note} {wire : List Note}

theorem inQueues_giveBack (os : List (Owed κ α)) (s : Broker κ α σ) :
    (os.foldl Broker.giveBack s).inQueues x + (os.foldl Broker.giveBack s).discarded.count x =
      s.inQueues x + s.discarded.count x + Custody.count Owed.items os x := by
  induction os generalizing s with
  | nil => rfl
  | cons o os ih =>
    have hone : (s.giveBack o).inQueues x + (s.giveBack o).discarded.count x =
        s.inQueues x + s.discarded.count x + o.items.count x := by
      unfold Broker.giveBack
      split
      · rename_i ms hq
        have hset := Custody.stock_set (List.flatMap Ready.items) x (⟨o.item, true⟩ :: ms) hq
        rw [List.flatMap_cons, List.count_append] at hset
        simp only [Broker.inQueues, Owed.items, Ready.items] at hset ⊢
        omega
      · simp only [Broker.inQueues, Owed.items, List.count_append]
        omega
    rw [List.foldl_cons, ih, Custody.count_cons]
    omega

theorem stock_firsts_giveBack (os : List (Owed κ α)) (s : Broker κ α σ) :
    Custody.stock (List.flatMap Ready.firsts) (os.foldl Broker.giveBack s).queues x =
      Custody.stock (List.flatMap Ready.firsts) s.queues x := by
  induction os generalizing s with
  | nil => rfl
  | cons o os ih =>
    rw [List.foldl_cons, ih]
    unfold Broker.giveBack
    split
    · rename_i ms hq
      have hset := Custody.stock_set (List.flatMap Ready.firsts) x (⟨o.item, true⟩ :: ms) hq
      rw [List.flatMap_cons, List.count_append] at hset
      simp only [Ready.firsts, if_true, List.count_nil, Nat.zero_add] at hset
      exact Nat.add_right_cancel hset
    · rfl

section Settle

def Channel.covered (c : Channel κ α σ) (note : Note) (x : α) : ℕ :=
  Custody.count Owed.items (c.owed.filter fun o => note.Covers o.tag) x

theorem inQueues_settle : (s.settle p c note wire).inQueues x +
    (s.settle p c note wire).discarded.count x = s.inQueues x + s.discarded.count x +
      if note.verb = .requeue then c.covered note x else 0 := by
  unfold Broker.settle
  split
  · exact inQueues_giveBack _ _
  · rfl

theorem final_settle : (s.settle p c note wire).final x =
    s.final x + if note.verb = .requeue then 0 else c.covered note x := by
  unfold Broker.final
  rw [settle_settled, Custody.count_append]
  congr 1
  rw [← Custody.count_flatMap, List.flatMap_map]
  by_cases hv : note.verb = .requeue
  · rw [if_pos hv, List.count_eq_zero]
    simp [Settled.final, hv]
  · rw [if_neg hv, Channel.covered, ← Custody.count_flatMap]
    simp only [Settled.final, if_neg hv]
    rfl

theorem requeued_settle : (s.settle p c note wire).requeued x =
    s.requeued x + if note.verb = .requeue then c.covered note x else 0 := by
  unfold Broker.requeued
  rw [settle_settled, Custody.count_append]
  congr 1
  rw [← Custody.count_flatMap, List.flatMap_map]
  by_cases hv : note.verb = .requeue
  · rw [if_pos hv, Channel.covered, ← Custody.count_flatMap]
    simp only [Settled.requeued, if_pos hv]
    rfl
  · rw [if_neg hv, List.count_eq_zero]
    simp [Settled.requeued, hv]

theorem isOwed_settle (hp : s.channels[p]? = some c) :
    (s.settle p c note wire).isOwed x + c.covered note x = s.isOwed x := by
  have hset := @Custody.count_set _ _ _ (fun c : Channel κ α σ => c.owed.flatMap Owed.items) _ _
    { c with owed := c.owed.filter fun o => ¬ note.Covers o.tag, wire := wire } x _ hp
  have hpart := Custody.count_filter_add (x := x) Owed.items (fun o => note.Covers o.tag) c.owed
  rw [Custody.count_flatMap, Custody.count_flatMap] at hset
  unfold Broker.isOwed Channel.covered
  rw [settle_channels]
  simp only at hset ⊢
  omega

omit [DecidableEq α] in
theorem settle_frame {γ : Type} (f : Broker κ α σ → γ)
    (hf : ∀ s queues discarded, f { s with queues := queues, discarded := discarded } = f s)
    (hf' : ∀ s channels settled, f { s with channels := channels, settled := settled } = f s) :
    f (s.settle p c note wire) = f s := by
  unfold Broker.settle
  split
  · rw [giveBack_frame f hf]
    exact hf' s _ _
  · exact hf' s _ _

end Settle

section Drop

theorem isOwed_drop (hp : s.channels[p]? = some c) :
    (s.drop client p c).isOwed x + Custody.count Owed.items c.owed x = s.isOwed x := by
  have hset := @Custody.count_set _ _ _ (fun c : Channel κ α σ => c.owed.flatMap Owed.items) _ _
    (c.next client) x _ hp
  rw [Custody.count_flatMap, Custody.count_flatMap] at hset
  unfold Broker.isOwed
  rw [drop_channels]
  exact hset

theorem inQueues_drop : (s.drop client p c).inQueues x + (s.drop client p c).discarded.count x =
    s.inQueues x + s.discarded.count x + Custody.count Owed.items c.owed x :=
  inQueues_giveBack _ _

theorem final_drop : (s.drop client p c).final x = s.final x :=
  congrArg (Custody.count Settled.final · x) (giveBack_settled _)

theorem requeued_drop : (s.drop client p c).requeued x = s.requeued x :=
  congrArg (Custody.count Settled.requeued · x) (giveBack_settled _)

omit [DecidableEq α] in
theorem drop_frame {γ : Type} (f : Broker κ α σ → γ)
    (hf : ∀ s queues discarded, f { s with queues := queues, discarded := discarded } = f s)
    (hf' : ∀ s channels returned, f { s with channels := channels, returned := returned } = f s) :
    f (s.drop client p c) = f s :=
  (giveBack_frame f hf _ _).trans (hf' s _ _)

theorem returned_drop : (s.drop client p c).returned.count x =
    s.returned.count x + Custody.count Owed.items c.owed x := by
  have he : (s.drop client p c).returned = s.returned ++ c.owed.map Owed.item :=
    giveBack_frame Broker.returned (fun _ _ _ => rfl) _ _
  rw [he, List.count_append, Custody.count_map]
  rfl

end Drop

section Moves

variable {queue : κ} {n : ℕ} {ms : List (Ready α)} {r : Ready α}

theorem stock_erase (holds : Ready α → List α) (hq : s.queues.get? queue = some ms)
    (hr : ms[n]? = some r) :
    Custody.stock (List.flatMap holds) (s.queues.set queue (ms.eraseIdx n)) x +
      (holds r).count x = Custody.stock (List.flatMap holds) s.queues x := by
  have hset := Custody.stock_set (List.flatMap holds) x (ms.eraseIdx n) hq
  have herase := Custody.count_eraseIdx holds x hr
  rw [Custody.count_flatMap, Custody.count_flatMap] at hset
  omega

omit [DecidableEq κ] in
theorem count_handles (holds : Handle α σ → List α) (hp : s.channels[p]? = some c)
    (hc : (c'.handles.flatMap holds).count x = (c.handles.flatMap holds).count x) :
    Custody.count (fun c : Channel κ α σ => c.handles.flatMap holds) (s.channels.set p c') x =
      Custody.count (fun c : Channel κ α σ => c.handles.flatMap holds) s.channels x := by
  have hset := @Custody.count_set _ _ _ (fun c : Channel κ α σ => c.handles.flatMap holds) _ _
    c' x _ hp
  omega

omit [DecidableEq κ] in
theorem count_handles_append (holds : Handle α σ → List α) (hp : s.channels[p]? = some c)
    {h : Handle α σ} (hc : c'.handles = c.handles ++ [h]) :
    Custody.count (fun c : Channel κ α σ => c.handles.flatMap holds) (s.channels.set p c') x =
      Custody.count (fun c : Channel κ α σ => c.handles.flatMap holds) s.channels x +
        (holds h).count x := by
  have hset := @Custody.count_set _ _ _ (fun c : Channel κ α σ => c.handles.flatMap holds) _ _
    c' x _ hp
  rw [hc, List.flatMap_append, List.count_append, List.flatMap_singleton] at hset
  omega

omit [DecidableEq κ] in
theorem count_handles_update (holds : Handle α σ → List α) {i : ℕ} {h : Handle α σ} {y : σ}
    {sent : Option (Bool × Verb)} (hstate : holds { h with state := y } = holds h)
    (hp : s.channels[p]? = some c) (hi : c.handles[i]? = some h) :
    Custody.count (fun c : Channel κ α σ => c.handles.flatMap holds)
      (s.update p i c h y sent).channels x =
      Custody.count (fun c : Channel κ α σ => c.handles.flatMap holds) s.channels x := by
  refine count_handles holds hp ?_
  have hset := @Custody.count_set _ _ _ holds _ _ { h with state := y } x _ hi
  rw [hstate] at hset
  rw [Custody.count_flatMap, Custody.count_flatMap]
  exact Nat.add_right_cancel hset

theorem count_handles_drop (holds : Handle α σ → List α)
    (hstate : ∀ h : Handle α σ, holds { h with state := client.lost h.state } = holds h)
    (hp : s.channels[p]? = some c) :
    Custody.count (fun c : Channel κ α σ => c.handles.flatMap holds)
      (s.drop client p c).channels x =
      Custody.count (fun c : Channel κ α σ => c.handles.flatMap holds) s.channels x := by
  rw [drop_channels]
  refine count_handles holds hp ?_
  simp only [Channel.next, List.flatMap_map, hstate]

theorem count_handles_settle (holds : Handle α σ → List α) (hp : s.channels[p]? = some c) :
    Custody.count (fun c : Channel κ α σ => c.handles.flatMap holds)
      (s.settle p c note wire).channels x =
      Custody.count (fun c : Channel κ α σ => c.handles.flatMap holds) s.channels x := by
  rw [settle_channels]
  exact count_handles holds hp rfl

omit [DecidableEq κ] in
theorem isOwed_update {i : ℕ} {h : Handle α σ} {y : σ} {sent : Option (Bool × Verb)}
    (hp : s.channels[p]? = some c) : (s.update p i c h y sent).isOwed x = s.isOwed x := by
  have hset := @Custody.count_set _ _ _ (fun c : Channel κ α σ => c.owed.flatMap Owed.items) _ _
    { c with
      handles := c.handles.set i { h with state := y }
      wire := c.wire ++ (sent.map fun x => ⟨h.tag, x.1, x.2⟩).toList } x _ hp
  exact Nat.add_right_cancel hset

theorem stock_enqueue (holds : Ready α → List α) (hq : s.queues.get? queue = some ms)
    (r : Ready α) :
    Custody.stock (List.flatMap holds) (s.queues.set queue (ms ++ [r])) x =
      Custody.stock (List.flatMap holds) s.queues x + (holds r).count x := by
  have hset := Custody.stock_set (List.flatMap holds) x (ms ++ [r]) hq
  rw [List.flatMap_append, List.count_append, List.flatMap_singleton] at hset
  omega

theorem Broker.Conserved.drop (h : s.Conserved x) (hp : s.channels[p]? = some c) :
    (s.drop client p c).Conserved x := by
  have hqueues := @inQueues_drop _ _ _ _ _ client s x p c
  have howed := @isOwed_drop _ _ _ _ _ client _ x _ _ hp
  unfold Broker.Conserved at h ⊢
  rw [final_drop, drop_frame Broker.handedOut (fun _ _ _ => rfl) (fun _ _ _ => rfl),
    drop_frame Broker.published (fun _ _ _ => rfl) (fun _ _ _ => rfl)]
  omega

omit [DecidableEq κ] in
theorem Broker.Conserved.update {i : ℕ} {h : Handle α σ} {y : σ} {sent : Option (Bool × Verb)}
    (hs : s.Conserved x) (hp : s.channels[p]? = some c) :
    (s.update p i c h y sent).Conserved x := by
  unfold Broker.Conserved at hs ⊢
  rw [isOwed_update hp]
  exact hs

/-- No message is lost, and none is made. -/
theorem Broker.Conserved.move (h : s.Conserved x) (hm : Move client s m t) : t.Conserved x := by
  have hconserved := h
  unfold Broker.Conserved at h ⊢
  cases hm with
  | stay => exact h
  | declare hq =>
    have hset := Custody.stock_set_new (List.flatMap Ready.items) x [] hq
    simp only [Broker.inQueues, Broker.isOwed, Broker.final, List.flatMap_nil,
      List.count_nil] at h hset ⊢
    omega
  | @enqueue queue y ms hq =>
    have hset := stock_enqueue (x := x) Ready.items hq ⟨y, false⟩
    simp only [Broker.inQueues, Broker.isOwed, Broker.final, Ready.items,
      List.count_append] at h hset ⊢
    omega
  | @delete queue ms hq =>
    have hpop := Custody.stock_pop (List.flatMap Ready.items) x hq
    have hitems : (ms.map Ready.item).count x = (ms.flatMap Ready.items).count x := by
      rw [Custody.count_map, Custody.count_flatMap]
      rfl
    simp only [Broker.inQueues, Broker.isOwed, Broker.final, List.count_append] at h ⊢
    omega
  | expire hq hr =>
    have herase := stock_erase (x := x) Ready.items hq hr
    simp only [Broker.inQueues, Broker.isOwed, Broker.final, Ready.items,
      List.count_append] at h herase ⊢
    omega
  | @deliver p n queue c ms r y hp hq hr =>
    have herase := stock_erase (x := x) Ready.items hq hr
    have hset := @Custody.count_set _ _ _ (fun c : Channel κ α σ => c.owed.flatMap Owed.items) _ _
      { c with
        lastTag := c.lastTag + 1
        owed := c.owed ++ [⟨c.lastTag + 1, queue, r.item⟩]
        handles := c.handles ++
          [⟨c.epoch, c.lastTag + 1, r.item, r.redelivered, false, y⟩] } x _ hp
    simp only [Broker.inQueues, Broker.isOwed, Broker.final, Ready.items, Owed.items,
      List.flatMap_append, List.flatMap_singleton, List.count_append] at h herase hset ⊢
    omega
  | @handOut p n queue c ms r y hp hq hr =>
    have herase := stock_erase (x := x) Ready.items hq hr
    have hset := @Custody.count_set _ _ _ (fun c : Channel κ α σ => c.owed.flatMap Owed.items) _ _
      { c with
        lastTag := c.lastTag + 1
        handles := c.handles ++
          [⟨c.epoch, c.lastTag + 1, r.item, r.redelivered, true, y⟩] } x _ hp
    simp only [Broker.inQueues, Broker.isOwed, Broker.final, Ready.items,
      List.count_append] at h herase hset ⊢
    omega
  | quiet hp => exact hconserved.update hp
  | send hp => exact hconserved.update hp
  | @settle p c note wire o hp =>
    have hqueues := @inQueues_settle _ _ _ _ _ s x p c note wire
    have howed := @isOwed_settle _ _ _ _ _ _ x _ _ note wire hp
    have hfinal := @final_settle _ _ _ _ _ s x p c note wire
    rw [settle_frame Broker.handedOut (fun _ _ _ => rfl) (fun _ _ _ => rfl),
      settle_frame Broker.published (fun _ _ _ => rfl) (fun _ _ _ => rfl)]
    split at hqueues
    · rename_i hv
      rw [if_pos hv] at hfinal
      omega
    · rename_i hv
      rw [if_neg hv] at hfinal
      omega
  | refuse hp => exact Broker.Conserved.drop h hp
  | lose hp => exact Broker.Conserved.drop h hp

theorem Broker.Counted.drop (h : s.Counted x) (hp : s.channels[p]? = some c) :
    (s.drop client p c).Counted x := by
  have hqueues := @inQueues_drop _ _ _ _ _ client s x p c
  have hreturned := @returned_drop _ _ _ _ _ client s x p c
  have hhandles := @count_handles_drop _ _ _ _ _ client _ x _ _ Handle.items (fun _ => rfl) hp
  unfold Broker.Counted at h ⊢
  rw [requeued_drop, hreturned, drop_frame Broker.published (fun _ _ _ => rfl) (fun _ _ _ => rfl)]
  simp only [Broker.deliveries] at h ⊢
  omega

/-- Every delivery is of a message that was published, or went back to its queue. -/
theorem Broker.Counted.move (h : s.Counted x) (hm : Move client s m t) : t.Counted x := by
  unfold Broker.Counted at h ⊢
  cases hm with
  | stay => exact h
  | declare hq =>
    have hset := Custody.stock_set_new (List.flatMap Ready.items) x [] hq
    simp only [Broker.inQueues, Broker.deliveries, Broker.requeued, List.flatMap_nil,
      List.count_nil] at h hset ⊢
    omega
  | @enqueue queue y ms hq =>
    have hset := stock_enqueue (x := x) Ready.items hq ⟨y, false⟩
    simp only [Broker.inQueues, Broker.deliveries, Broker.requeued, Ready.items,
      List.count_append] at h hset ⊢
    omega
  | @delete queue ms hq =>
    have hpop := Custody.stock_pop (List.flatMap Ready.items) x hq
    have hitems : (ms.map Ready.item).count x = (ms.flatMap Ready.items).count x := by
      rw [Custody.count_map, Custody.count_flatMap]
      rfl
    simp only [Broker.inQueues, Broker.deliveries, Broker.requeued, List.count_append] at h ⊢
    omega
  | expire hq hr =>
    have herase := stock_erase (x := x) Ready.items hq hr
    simp only [Broker.inQueues, Broker.deliveries, Broker.requeued, Ready.items,
      List.count_append] at h herase ⊢
    omega
  | deliver hp hq hr | handOut hp hq hr =>
    have herase := stock_erase (x := x) Ready.items hq hr
    simp only [Broker.inQueues, Broker.deliveries, Broker.requeued] at h ⊢
    rw [count_handles_append (x := x) Handle.items hp (by rfl)]
    simp only [Ready.items, Handle.items] at herase ⊢
    omega
  | quiet hp hi | send hp hi =>
    simp only [Broker.deliveries] at h ⊢
    rw [count_handles_update Handle.items (by rfl) hp hi]
    exact h
  | @settle p c note wire o hp =>
    have hqueues := @inQueues_settle _ _ _ _ _ s x p c note wire
    have hrequeued := @requeued_settle _ _ _ _ _ s x p c note wire
    have hhandles := @count_handles_settle _ _ _ _ _ _ x _ _ note wire Handle.items hp
    rw [settle_frame Broker.returned (fun _ _ _ => rfl) (fun _ _ _ => rfl),
      settle_frame Broker.published (fun _ _ _ => rfl) (fun _ _ _ => rfl)]
    simp only [Broker.deliveries] at h ⊢
    split at hqueues
    · rename_i hv
      rw [if_pos hv] at hrequeued
      omega
    · rename_i hv
      rw [if_neg hv] at hrequeued
      omega
  | refuse hp => exact Broker.Counted.drop h hp
  | lose hp => exact Broker.Counted.drop h hp

/-- A message is delivered for the first time once. -/
theorem firsts_move (h : s.firsts x ≤ s.published.count x) (hm : Move client s m t) :
    t.firsts x ≤ t.published.count x := by
  have hfirsts : ∀ {r : Ready α} {h : Handle α σ}, h.item = r.item → h.redelivered = r.redelivered →
      h.firsts = r.firsts := by
    intro r h hi hd
    simp only [Handle.firsts, Ready.firsts, hi, hd]
  unfold Broker.firsts at h ⊢
  have hdrop : ∀ {p : ℕ} {c : Channel κ α σ}, s.channels[p]? = some c →
      Custody.stock (List.flatMap Ready.firsts) (s.drop client p c).queues x +
        Custody.count (fun c : Channel κ α σ => c.handles.flatMap Handle.firsts)
          (s.drop client p c).channels x ≤ (s.drop client p c).published.count x := by
    intro p c hp
    rw [count_handles_drop Handle.firsts (fun _ => rfl) hp,
      drop_frame Broker.published (fun _ _ _ => rfl) (fun _ _ _ => rfl)]
    exact Nat.le_trans (Nat.add_le_add_right (Nat.le_of_eq (stock_firsts_giveBack _ _)) _) h
  cases hm with
  | stay => exact h
  | declare hq =>
    have hset := Custody.stock_set_new (List.flatMap Ready.firsts) x [] hq
    rw [List.flatMap_nil, List.count_nil] at hset
    simp only at h ⊢
    omega
  | @enqueue queue y ms hq =>
    have hset := stock_enqueue (x := x) Ready.firsts hq ⟨y, false⟩
    simp only [List.count_append, Ready.firsts, Bool.false_eq_true, if_false] at h hset ⊢
    omega
  | delete hq =>
    have hpop := Custody.stock_pop (List.flatMap Ready.firsts) x hq
    simp only at h ⊢
    omega
  | expire hq hr =>
    have herase := stock_erase (x := x) Ready.firsts hq hr
    simp only at h ⊢
    omega
  | @deliver p n queue c ms r y hp hq hr =>
    have herase := stock_erase (x := x) Ready.firsts hq hr
    simp only at h ⊢
    rw [count_handles_append (x := x) Handle.firsts hp (by rfl), hfirsts (r := r) rfl rfl]
    omega
  | @handOut p n queue c ms r y hp hq hr =>
    have herase := stock_erase (x := x) Ready.firsts hq hr
    simp only at h ⊢
    rw [count_handles_append (x := x) Handle.firsts hp (by rfl), hfirsts (r := r) rfl rfl]
    omega
  | quiet hp hi | send hp hi =>
    rw [count_handles_update Handle.firsts (by rfl) hp hi]
    exact h
  | @settle p c note wire o hp =>
    have hqueues : Custody.stock (List.flatMap Ready.firsts) (s.settle p c note wire).queues x =
        Custody.stock (List.flatMap Ready.firsts) s.queues x := by
      unfold Broker.settle
      split
      · exact stock_firsts_giveBack _ _
      · rfl
    rw [hqueues, count_handles_settle Handle.firsts hp,
      settle_frame Broker.published (fun _ _ _ => rfl) (fun _ _ _ => rfl)]
    exact h
  | refuse hp => exact hdrop hp
  | lose hp => exact hdrop hp

theorem deliveries_move (hm : Move client s m t) : s.deliveries x ≤ t.deliveries x := by
  unfold Broker.deliveries
  have hdrop : ∀ {p : ℕ} {c : Channel κ α σ}, s.channels[p]? = some c →
      Custody.count (fun c : Channel κ α σ => c.handles.flatMap Handle.items) s.channels x ≤
        Custody.count (fun c : Channel κ α σ => c.handles.flatMap Handle.items)
          (s.drop client p c).channels x :=
    fun hp => Nat.le_of_eq (count_handles_drop Handle.items (fun _ => rfl) hp).symm
  cases hm with
  | deliver hp =>
    rw [count_handles_append Handle.items hp (by rfl)]
    exact Nat.le_add_right _ _
  | handOut hp =>
    rw [count_handles_append Handle.items hp (by rfl)]
    exact Nat.le_add_right _ _
  | quiet hp hi => exact Nat.le_of_eq (count_handles_update Handle.items (by rfl) hp hi).symm
  | send hp hi => exact Nat.le_of_eq (count_handles_update Handle.items (by rfl) hp hi).symm
  | settle hp => exact Nat.le_of_eq (count_handles_settle Handle.items hp).symm
  | refuse hp => exact hdrop hp
  | lose hp => exact hdrop hp
  | _ => exact Nat.le_refl _

end Moves

omit [DecidableEq κ] in
theorem fresh_conserved {n : ℕ} : (fresh n : Broker κ α σ).Conserved x := by
  have hzero : (fresh n : Broker κ α σ).isOwed x = 0 := by
    unfold Broker.isOwed
    rw [Custody.count_eq_zero]
    intro c hc
    rw [List.eq_of_mem_replicate hc]
    exact List.not_mem_nil
  unfold Broker.Conserved
  rw [hzero]
  rfl

omit [DecidableEq κ] in
theorem fresh_handles {n : ℕ} (holds : Handle α σ → List α) :
    Custody.count (fun c : Channel κ α σ => c.handles.flatMap holds)
      (fresh n : Broker κ α σ).channels x = 0 := by
  rw [Custody.count_eq_zero]
  intro c hc
  rw [List.eq_of_mem_replicate hc]
  exact List.not_mem_nil

omit [DecidableEq κ] in
theorem fresh_counted {n : ℕ} : (fresh n : Broker κ α σ).Counted x := by
  unfold Broker.Counted Broker.deliveries
  rw [fresh_handles]
  rfl

omit [DecidableEq κ] in
theorem fresh_firsts {n : ℕ} : (fresh n : Broker κ α σ).firsts x = 0 := by
  unfold Broker.firsts
  rw [fresh_handles]
  rfl

omit [DecidableEq κ] in
theorem settled_le_handles (hs : Sound client s) (q : Settled α → Prop) [DecidablePred q]
    (q' : Handle α σ → Prop) [DecidablePred q']
    (hq : ∀ r ∈ s.settled, q r → ∀ c, s.channels[r.channel]? = some c → ∀ h ∈ c.handles,
      h.epoch = r.epoch → h.tag = r.tag → q' h) :
    Custody.count (fun r : Settled α => if q r then [r.item] else []) s.settled x ≤
      Custody.count (fun c : Channel κ α σ => c.handles.flatMap fun h =>
        if q' h then [h.item] else []) s.channels x := by
  -- the deliveries, with the numbers of their channels
  have hlist : ∀ (cs : List (Channel κ α σ)) (k : ℕ),
      ((cs.zipIdx k).flatMap fun e => (e.1.handles.filter fun h => q' h ∧ h.item = x).map fun h =>
        (e.2, h.epoch, h.tag)).length =
      Custody.count (fun c : Channel κ α σ => c.handles.flatMap fun h =>
        if q' h then [h.item] else []) cs x := by
    intro cs
    induction cs with
    | nil => exact fun _ => rfl
    | cons c cs ih =>
      intro k
      rw [List.zipIdx_cons, List.flatMap_cons, List.length_append, ih, List.length_map,
        Custody.count_cons, Custody.count_flatMap, Custody.count_if]
  rw [Custody.count_if, ← hlist s.channels 0]
  refine Custody.length_le_of_keys Settled.key id
    (hs.once.sublist (List.filter_sublist.map _)) fun r hr => ?_
  obtain ⟨hmem, hr⟩ := List.mem_filter.mp hr
  obtain ⟨hqr, hx⟩ : q r ∧ r.item = x := by simpa using hr
  obtain ⟨c, hc, ha⟩ := hs.asked r hmem
  obtain ⟨h, hh, he, ht, hi⟩ := ha.delivery
  refine ⟨_, List.mem_flatMap.mpr ⟨(c, r.channel), ?_, List.mem_map.mpr ⟨h, ?_, rfl⟩⟩, ?_⟩
  · exact List.mem_zipIdx_iff_getElem?.mpr hc
  · rw [List.mem_filter]
    exact ⟨hh, by simpa using ⟨hq r hmem hqr c hc h hh he ht, hi.trans hx⟩⟩
  · simp [Settled.key, he, ht]

end Deliveries
