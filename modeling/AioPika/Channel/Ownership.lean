import AioPika.Channel.Attempt
import AioPika.Channel.Returns

/-! # The underlay channels of a channel

`_open` makes the underlay channel that it has created the current one and lets
go of the previous one; when `_on_open` raises, the channel is left without one.
Neither looks at the underlay channel that it replaces, so the channel owns at
most one open underlay channel as long as none is open at these moments.
-/

namespace AioPika.Ownership

open Lifecycle Transition

def Open (s : State) (u : ℕ) : Prop := ∃ un ∈ s.underlays[u]?, un.IsOpen

/-- `get_underlay_channel` on a connection that is ready; it raises if there is none. -/
def getUnderlayChannel (s : State) : Option ℕ := s.channel

/-- No open, no close and no close callback of the channel is in progress. -/
structure Settled (s : State) : Prop where
  tasks : ∀ t ∈ s.tasks, t.pc.Done
  callbacks : ∀ u ∈ s.underlays, u.closeCallback ≠ .running

instance : DecidablePred Settled := fun s =>
  decidable_of_iff ((∀ t ∈ s.tasks, t.pc.Done) ∧ ∀ u ∈ s.underlays, u.closeCallback ≠ .running)
    ⟨fun h => ⟨h.1, h.2⟩, fun h => ⟨h.1, h.2⟩⟩

/-- At most one underlay channel is open, and it is the one in use. -/
structure OwnsOne (s : State) : Prop where
  unique : ∀ u v, Open s u → Open s v → u = v
  inUse : ∀ u, Open s u → getUnderlayChannel s = some u

/-- No underlay channel is open when a new one becomes the current one, and when a failed open
leaves the channel without one. -/
def Vacant (s : State) : Action → Prop
  | .created _ | .cleaned _ => ∀ un ∈ s.underlays, ¬ un.IsOpen
  | _ => True

instance (u : Underlay) : Decidable u.IsOpen :=
  inferInstanceAs (Decidable (u.opened = true ∧ u.closeCallback.Armed))

instance (s : State) : DecidablePred (Vacant s)
  | .created _ | .cleaned _ => inferInstanceAs (Decidable (∀ un ∈ s.underlays, ¬ un.IsOpen))
  | .call _ | .locked _ | .connected _ | .opened _ | .returned _ | .raised _ _ | .closed _ _
  | .callbackStarted _ | .callbackEnded _ => .isTrue trivial

variable {s t : State} {a : Action} {channel channel' : Returns.Channel} {u : ℕ}

theorem shutBut_of_vacant {o : Option ℕ} (h : ∀ un ∈ s.underlays, ¬ un.IsOpen) :
    ShutBut 0 o s.underlays := by
  intro v un _ hget ho
  exact absurd ho (h un (List.mem_of_getElem? hget))

/-- Only the current underlay channel may be open. -/
theorem shutBut_step (h : ShutBut 0 s.channel s.underlays) (hv : Vacant s a)
    (hst : Lifecycle.step s a = some t) : ShutBut 0 t.channel t.underlays := by
  cases step_cases hst with
  | restore | reopen | initialization | close | unopened | skipped | locked | opened | returned
  | failed =>
    exact h
  | connected =>
    have hnew : ¬ (⟨false, .idle⟩ : Underlay).IsOpen := fun ho => nomatch ho.1
    exact h.append hnew
  | created => exact (shutBut_of_vacant hv).created
  | restored | raised =>
    rw [unlock_channel, unlock_underlays]
    exact h
  | cleaned =>
    rw [unlock_channel, unlock_underlays]
    exact shutBut_of_vacant hv
  | closed => exact h.setCallback id
  | callbackStarted =>
    rw [closeCallback_channel, closeCallback_underlays]
    exact h.setCallback id
  | callbackEnded => exact h.setCallback id

theorem shutBut_evolves (h : ShutBut 0 s.channel s.underlays) (hv : Vacant s a)
    (hst : Returns.Evolves s a t) : ShutBut 0 t.channel t.underlays := by
  cases hst with
  | lifecycle hst => exact shutBut_step h hv hst
  | created => exact (shutBut_of_vacant hv).created
  | callbackStarted => exact h.setCallback id

theorem ownsOne_of_shutBut (h : ShutBut 0 s.channel s.underlays) : OwnsOne s := by
  have hcurrent (u : ℕ) : Open s u → s.channel = some u := by
    rintro ⟨un, hget, ho⟩
    exact h u un (Nat.zero_le u) hget ho
  constructor
  · intro u v hu hv
    exact Option.some.inj ((hcurrent u hu).symm.trans (hcurrent v hv))
  · exact hcurrent

/-- In every run in which no underlay channel is open when another one is made the current one
or the current one is dropped, a channel that has nothing in progress owns at most one open
underlay channel, which is the one in use. -/
theorem at_most_one_underlay (cls : Returns.ChannelClass)
    (h : Reach (· = Returns.fresh) (Returns.step cls) (fun s a => Vacant s.lifecycle a) channel) :
    Settled channel.lifecycle → OwnsOne channel.lifecycle := by
  intro _
  refine ownsOne_of_shutBut (h.invariant (I := fun s => ShutBut 0 s.lifecycle.channel
    s.lifecycle.underlays) ?_ ?_)
  · rintro s rfl v un - hget -
    cases hget
  · intro s a t hs hv hst
    exact shutBut_evolves hs hv (Returns.step_evolves hst)

def reopenedClosed : List Action :=
  [.call .initialization, .connected 0, .created 0, .closed 0 (some .other), .callbackStarted 0,
    .callbackEnded 0, .call .reopen, .connected 1, .created 1]

def reopenedOpen : List Action :=
  [.call .initialization, .connected 0, .created 0, .call .reopen, .connected 1, .created 1]

theorem one_after_reopen : ∃ s,
    checked (Returns.step .channel) (fun s a => Vacant s.lifecycle a) Returns.fresh
      reopenedClosed = some s ∧ Settled s.lifecycle ∧ OwnsOne s.lifecycle ∧ Open s.lifecycle 1 :=
  ⟨_, rfl, by decide, at_most_one_underlay .channel (Reach.of_checked reopenedClosed rfl rfl)
    (by decide), _, rfl, by decide⟩

/-- Both underlay channels of a channel that was reopened are open. -/
theorem two_after_reopen : ∃ s,
    checked (Returns.step .channel) (fun _ _ => True) Returns.fresh reopenedOpen = some s ∧
      Settled s.lifecycle ∧ ¬ OwnsOne s.lifecycle := by
  refine ⟨_, rfl, by decide, fun h => ?_⟩
  have huv := h.unique 0 1 ⟨_, rfl, by decide⟩ ⟨_, rfl, by decide⟩
  cases huv

end AioPika.Ownership
