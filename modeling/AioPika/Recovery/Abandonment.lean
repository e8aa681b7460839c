import AioPika.Recovery.System

/-! # Abandoned channels

A channel that is not restored has somebody who is going to restore it: one of
its close callbacks, or the connection. This holds until a restore of a close
callback fails, or the callback is told of a cancellation, while the connection
has nothing left to do for the channel.
-/

namespace AioPika.Recovery

open Transition

open Lifecycle (Task Rescued WasOpened raises)

open RobustConnection (Settled Down Coming Sound)

/-- A call of `restore()` or `reopen()`. -/
def Reopens : Lifecycle.Call → Prop
  | .restore _ | .reopen => True
  | .initialization | .close => False

instance : DecidablePred Reopens := fun call => by
  cases call <;> unfold Reopens <;> infer_instance

/-- No restore or reopen of the channel is in progress, and no close callback is in progress or
scheduled. -/
structure Resting (s : Lifecycle.State) : Prop where
  tasks : ∀ t ∈ s.tasks, Reopens t.call → t.pc.Done
  callbacks : ∀ u ∈ s.underlays, ¬ u.closeCallback.Pending

/-- A channel that its user has initialised is restored when nobody is doing anything. -/
def NotAbandoned (s : System) : Prop :=
  (⟨.initialization, .returned⟩ : Task) ∈ s.channel.tasks → Settled s.connection →
    Resting s.channel → s.channel.restored = true

variable (c : ChannelId)

/-- Who gives up leaves the channel restored, or to another close callback, or to the
connection. -/
def HandedOver (s : System) : Action → Prop
  -- the restore of another channel is cancelled, and the factory with it
  | .connection (.restored (some .cancelled)) =>
    s.channel.restored = true ∨ Rescued s.channel.tasks ∨ Down s.connection
  -- the close callback is told of a cancellation
  | .channel (.callbackStarted u) =>
    s.channel.callback u = some (.scheduled (some .cancelled)) →
      Rescued s.channel.tasks ∨ Coming c s.connection
  -- a restore fails
  | .channel a => ∀ r ∈ raises s.channel a,
    (r.2.1.IsRescue → s.channel.restored = true ∨ Rescued (s.channel.tasks.eraseIdx r.1) ∨
      Coming c s.connection) ∧
    (s.awaited = some r.1 → r.2.2 = .cancelled →
      s.channel.restored = true ∨ Rescued s.channel.tasks ∨ Down s.connection)
  | _ => True

instance (s : System) : DecidablePred (HandedOver c s) := fun a => by
  unfold HandedOver
  split <;> infer_instance

/-- The user closes neither the channel nor the connection. -/
def Unclosed (a : Action) : Prop := a ≠ .connection .close ∧ a ≠ .channel (.call .close)

instance : DecidablePred Unclosed := fun a =>
  inferInstanceAs (Decidable (a ≠ .connection .close ∧ a ≠ .channel (.call .close)))

/-- The user closes nothing, and nobody gives up an initialised channel that is left alone. -/
def Kept (s : System) (a : Action) : Prop :=
  Unclosed a ∧ (WasOpened s.channel → HandedOver c s a)

instance (s : System) : DecidablePred (Kept c s) := fun a =>
  have : Decidable (WasOpened s.channel) := by unfold WasOpened; infer_instance
  inferInstanceAs (Decidable (Unclosed a ∧ (WasOpened s.channel → HandedOver c s a)))

structure Inv (s : System) : Prop where
  sound : Sound s.connection
  closed : s.channel.closed = false
  listed : WasOpened s.channel → c ∈ s.connection.channels
  awaited : ∀ i, s.awaited = some i →
    (∃ t channels, s.connection.factory = .restoring t (c :: channels)) ∧
    ∃ pc, s.channel.tasks[i]? = some ⟨.restore .connection, pc⟩ ∧ ¬ pc.Done
  responsible : WasOpened s.channel →
    s.channel.restored = true ∨ Rescued s.channel.tasks ∨ Coming c s.connection

variable {c} {s u : System} {a : Action}

theorem fresh_inv (failFast : Bool) : Inv c (fresh failFast) := by
  refine ⟨RobustConnection.fresh_sound failFast, rfl, ?_, ?_, ?_⟩
  · rintro ⟨task, hm, -⟩
    cases hm
  · rintro i hi
    cases hi
  · rintro ⟨task, hm, -⟩
    cases hm

/-- An unrestored channel that nobody is restoring is up to the connection. -/
theorem Inv.notAbandoned (h : Inv c s) : NotAbandoned s := by
  intro hm hsettled hrest
  have hopened : WasOpened s.channel := ⟨_, hm, rfl, Or.inr rfl⟩
  rcases h.responsible hopened with hr | ⟨task, htask, hrescue, hd⟩ | ha | hd
  · exact hr
  · refine absurd (hrest.tasks task htask ?_) hd
    unfold Lifecycle.Call.IsRescue at hrescue
    split at hrescue
    · rename_i u hcall
      rw [hcall]
      trivial
    · exact hrescue.elim
  · exact absurd ha hsettled.not_ahead
  · exact absurd hd hsettled.not_down

theorem Inv.connection {a : RobustConnection.Action} (h : Inv c s)
    (hk : Kept c s (.connection a)) (hs : step c s (.connection a) = some u) : Inv c u := by
  obtain ⟨⟨hclose, -⟩, hover⟩ := hk
  have hclose : a ≠ .close := fun he => hclose (he ▸ rfl)
  simp only [step] at hs
  split at hs
  · cases hs
  · rename_i hshared
    obtain ⟨k, hk, rfl⟩ := Option.map_eq_some_iff.mp hs
    have hcollected : a ≠ .collected c := by
      rintro rfl
      exact hshared rfl
    have hhead : ∀ exc, a = .restored exc → ∀ t l,
        s.connection.factory ≠ .restoring t (c :: l) := by
      rintro exc rfl t l hf
      exact hshared (by simp only [Shared, hf])
    refine ⟨h.sound.step hclose hk, h.closed, ?_, ?_, ?_⟩
    · exact fun ho => RobustConnection.channels_step (h.listed ho) hcollected hk
    · rintro i hi
      obtain ⟨⟨t, l, hf⟩, htask⟩ := h.awaited i hi
      have hr : ∀ exc, a ≠ .restored exc := fun exc ha => hhead exc ha t l hf
      exact ⟨⟨t, l, RobustConnection.restoring_step h.sound hf hclose hr hk⟩, htask⟩
    · intro ho
      by_cases hc : a = .restored (some .cancelled)
      · subst hc
        refine (hover ho).imp_right (Or.imp_right fun hd => Or.inr ?_)
        exact RobustConnection.down_cancelled hd hk
      · exact (h.responsible ho).imp_right (Or.imp_right fun hcoming =>
          RobustConnection.coming_step h.sound (h.listed ho) hcoming hclose hc (hhead none) hk)

theorem Inv.restore (h : Inv c s) (hs : step c s .restore = some u) : Inv c u := by
  simp only [step] at hs
  split at hs
  · rename_i t c' l hf ha
    split at hs
    · rename_i hc
      obtain rfl := Option.some.inj hs
      subst hc
      have hback : ∀ {pc : Lifecycle.Pc} {call : Lifecycle.Call},
          ¬ (pc = .initialized ∨ pc = .returned) →
          WasOpened (s.channel.start call pc) → WasOpened s.channel :=
        fun hpc => Lifecycle.wasOpened_of_start hpc
      refine ⟨h.sound, h.closed, fun ho => h.listed (hback (by simp) ho), ?_, fun ho => ?_⟩
      · rintro i hi
        obtain rfl := Option.some.inj hi
        exact ⟨⟨t, l, hf⟩, .locking, by simp [Lifecycle.State.start], id⟩
      · exact (h.responsible (hback (by simp) ho)).imp_right (Or.imp_left Lifecycle.Rescued.start)
    · cases hs
  · cases hs

theorem HandedOver.raised {a : Lifecycle.Action} (h : HandedOver c s (.channel a)) :
    ∀ r ∈ raises s.channel a,
      (r.2.1.IsRescue → s.channel.restored = true ∨ Rescued (s.channel.tasks.eraseIdx r.1) ∨
        Coming c s.connection) ∧
      (s.awaited = some r.1 → r.2.2 = .cancelled →
        s.channel.restored = true ∨ Rescued s.channel.tasks ∨ Down s.connection) := by
  cases a with
  | callbackStarted u =>
    intro r hr
    cases hr
  | _ => exact h

theorem Inv.channel_only {a : Lifecycle.Action} {n : Lifecycle.State} (h : Inv c s)
    (hk : Kept c s (.channel a)) (hn : Lifecycle.step s.channel a = some n)
    (hc : c ∈ s.connection.channels)
    (hawait : ∀ i, s.awaited = some i →
      ∃ pc, n.tasks[i]? = some ⟨.restore .connection, pc⟩ ∧ ¬ pc.Done) :
    Inv c { s with channel := n } := by
  obtain ⟨⟨-, hclose⟩, hover⟩ := hk
  have hclose : a ≠ .call .close := fun he => hclose (he ▸ rfl)
  refine ⟨h.sound, Lifecycle.closed_step h.closed hclose hn, fun _ => hc, ?_, ?_⟩
  · exact fun i hi => ⟨(h.awaited i hi).1, hawait i hi⟩
  · apply Lifecycle.rescued_step h.responsible h.closed hclose _ _ hn
    · intro ho i call exc hr
      exact ((hover ho).raised _ hr).1
    · rintro ho u rfl
      exact hover ho

theorem Inv.responsible_cancelled {a : Lifecycle.Action} {n : Lifecycle.State} {i : ℕ}
    (h : Inv c s) (hk : Kept c s (.channel a)) (hn : Lifecycle.step s.channel a = some n)
    (hi : s.awaited = some i)
    (hr : raises s.channel a = some (i, .restore .connection, .cancelled)) (ho : WasOpened n) :
    n.restored = true ∨ Rescued n.tasks ∨ Down s.connection := by
  obtain ⟨⟨-, hclose⟩, hover⟩ := hk
  have hclose : a ≠ .call .close := fun he => hclose (he ▸ rfl)
  refine Lifecycle.rescued_step (fun ho => ?_) h.closed hclose (fun _ j call exc hr' hc => ?_)
    (fun _ u ha => ?_) hn ho
  · exact ((hover ho).raised _ hr).2 hi rfl
  · obtain rfl : Lifecycle.Call.restore .connection = call :=
      congrArg (fun r => r.2.1) (Option.some.inj (hr.symm.trans hr'))
    exact hc.elim
  · subst ha
    cases hr

theorem Inv.channel {a : Lifecycle.Action} (h : Inv c s) (hk : Kept c s (.channel a))
    (hs : step c s (.channel a) = some u) : Inv c u := by
  simp only [step] at hs
  split at hs
  · cases hs
  · rename_i hguard
    rw [not_or, not_not] at hguard
    obtain ⟨n, hn, hresume⟩ := Option.bind_eq_some_iff.mp hs
    have hclosed : n.closed = false :=
      Lifecycle.closed_step h.closed (fun he => hk.1.2 (he ▸ rfl)) hn
    cases hawait : s.awaited with
    | none =>
      have hb : (s.awaited.bind fun i => n.tasks[i]?.map Task.pc) = none := by rw [hawait]; rfl
      simp only [System.resume, hb] at hresume
      obtain rfl := Option.some.inj hresume
      apply h.channel_only hk hn hguard.2
      intro i hi
      cases hawait.symm.trans hi
    | some i =>
      obtain ⟨-, pc, htask, hd⟩ := h.awaited i hawait
      obtain ⟨pc', hget, hpc⟩ := Lifecycle.task_step hn htask
      have hb : (s.awaited.bind fun i => n.tasks[i]?.map Task.pc) = some pc' := by
        rw [hawait, Option.bind_some, hget, Option.map_some]
      simp only [System.resume, hb] at hresume
      -- the factory goes on exactly when the restore has returned or raised
      cases pc' with
      | returned =>
        obtain ⟨k, hstep, rfl⟩ := Option.map_eq_some_iff.mp hresume
        have hr : n.restored = true := by
          rcases hpc with rfl | ⟨hr, -⟩
          · exact absurd trivial hd
          · exact hr rfl ⟨_, rfl⟩
        exact ⟨h.sound.step (by simp) hstep, hclosed,
          fun _ => RobustConnection.channels_step hguard.2 (by simp) hstep,
          fun _ hi => (by cases hi), fun _ => Or.inl hr⟩
      | raised exc =>
        obtain ⟨k, hstep, rfl⟩ := Option.map_eq_some_iff.mp hresume
        have hr : raises s.channel a = some (i, .restore .connection, exc) := by
          rcases hpc with rfl | ⟨-, hr⟩
          · exact absurd trivial hd
          · exact hr exc rfl
        refine ⟨h.sound.step (by simp) hstep, hclosed,
          fun _ => RobustConnection.channels_step hguard.2 (by simp) hstep,
          fun _ hi => (by cases hi), fun ho => ?_⟩
        by_cases hexc : exc = .cancelled
        · subst hexc
          exact (h.responsible_cancelled hk hn hawait hr ho).imp_right (Or.imp_right
            fun hdown => Or.inr (RobustConnection.down_cancelled hdown hstep))
        · exact Or.inr (Or.inr (Or.inl (RobustConnection.ahead_restoreRaised hexc hstep)))
      | _ =>
        obtain rfl := Option.some.inj hresume
        apply h.channel_only hk hn hguard.2
        intro j hj
        obtain rfl : i = j := Option.some.inj (hawait.symm.trans hj)
        exact ⟨_, hget, id⟩

theorem Inv.step (h : Inv c s) (hk : Kept c s a) (hs : step c s a = some u) : Inv c u := by
  cases a with
  | connection a => exact h.connection hk hs
  | channel a => exact h.channel hk hs
  | restore => exact h.restore hs

def Fresh (s : System) : Prop := ∃ failFast, s = fresh failFast

/-- In every run in which nobody gives up an initialised channel that is left alone, the channel
is not abandoned. -/
theorem never_abandoned (c : ChannelId) (s : System)
    (h : Reach Fresh (Recovery.step c) (Kept c) s) : NotAbandoned s := by
  have hinv : Inv c s := by
    apply h.invariant (I := Inv c)
    · rintro s ⟨failFast, rfl⟩
      exact fresh_inv failFast
    · intro s a t hi hk hs
      exact hi.step hk hs
  exact hinv.notAbandoned

def setUp : List Action :=
  [.connection .connect, .connection .woken, .connection (.opened []), .connection (.channel 0),
    .connection .slept, .channel (.call .initialization), .channel (.connected 0),
    .channel (.created 0), .channel (.opened 0), .channel (.returned 0)]

def reconnected : List Action :=
  setUp ++ [.connection (.died 0 none), .channel (.closed 0 (some .cancelled)),
    .connection (.callbackStarted 0), .channel (.callbackStarted 0), .channel (.callbackEnded 0),
    .connection (.callbackEnded 0), .connection .woken, .connection (.opened [0]), .restore,
    .channel (.locked 1), .channel (.connected 1), .channel (.created 1), .channel (.opened 1),
    .channel (.returned 1), .connection .notified, .connection .slept]

/-- The broker closes the channel, and the restore by its close callback fails. -/
def restoreFails : List Action :=
  setUp ++ [.channel (.closed 0 (some .other)), .channel (.callbackStarted 0),
    .channel (.locked 1), .channel (.connected 1), .channel (.created 1),
    .channel (.raised 1 .connection), .channel (.closed 1 (some .connection)),
    .channel (.callbackStarted 1), .channel (.callbackEnded 1), .channel (.cleaned 1),
    .channel (.callbackEnded 0)]

theorem restored_by_connection : ∃ s, checked (step 0) (Kept 0) (fresh true) reconnected = some s ∧
    s.channel.restored = true :=
  ⟨_, rfl, never_abandoned 0 _ (Reach.of_checked reconnected ⟨true, rfl⟩ rfl) (by decide)
    ⟨rfl, ⟨_, rfl, trivial⟩, id, by decide⟩ ⟨by decide, by decide⟩⟩

/-- The exception of the restore is lost, and nobody restores the channel again. -/
theorem abandoned_by_callback : ∃ s, Reach Fresh (step 0) (fun _ a => Unclosed a) s ∧
    ¬ NotAbandoned s := by
  refine ⟨_, Reach.of_checked restoreFails (⟨true, rfl⟩ : Fresh (fresh true)) rfl, fun h => ?_⟩
  have hr := h (by decide) ⟨rfl, ⟨_, rfl, trivial⟩, id, by decide⟩ ⟨by decide, by decide⟩
  cases hr

end AioPika.Recovery
