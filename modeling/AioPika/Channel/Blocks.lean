import AioPika.Channel.Transactions
import AioPika.Foundation.Journal
import Mathlib.Logic.Function.Basic

/-! # Transaction blocks

`async with channel.transaction()` selects the underlay channel that is current
when it is entered, and commits or rolls back on the one that is current when it
is left. Meanwhile the channel may be restored on another underlay channel, which
is not selected; and a selected one stays so when the block is over.
-/

namespace AioPika.Blocks

open Firings (Opened)
open Journal (Frame Mode Line)

/-- What `__aexit__` awaits. -/
inductive Ending where
  | commit
  | rollback
  deriving DecidableEq, Repr

inductive User (α : Type) where
  | outside
  /-- `select()`, in `get_underlay_channel` -/
  | entering
  /-- `await channel.tx_select(...)` -/
  | selecting (underlay : ℕ)
  /-- In the block, with the underlay channel that was selected and what was published. -/
  | inside (underlay : ℕ) (body : List α)
  /-- `commit()` or `rollback()`, in `get_underlay_channel` -/
  | leaving (underlay : ℕ) (body : List α) (ending : Ending)
  /-- `await channel.tx_commit(...)` or `await channel.tx_rollback(...)` -/
  | ending (underlay : ℕ) (body : List α) (ending : Ending)
  deriving DecidableEq, Repr

structure Session (α : Type) where
  channel : Lifecycle.State
  /-- The underlay channels, as the broker sees them. -/
  lines : ℕ → Line α
  /-- The underlay channels on which `tx_select` was sent. -/
  selects : List ℕ
  user : User α

structure State (α : Type) where
  sessions : List (Session α)
  /-- What has taken effect. -/
  log : List α
  /-- The single publications, and the blocks that the broker has committed. -/
  units : List (List α)

inductive Event (α : Type) where
  | lifecycle (a : Lifecycle.Action)
  | enter
  /-- `get_underlay_channel` is over. -/
  | ready
  /-- The broker has answered. -/
  | answered
  /-- The await raises. -/
  | raised
  | publish (item : α)
  /-- The block ends, and may have raised. -/
  | leave (raised : Bool)

inductive Action (α : Type) where
  | event (session : ℕ) (e : Event α)
  /-- The broker gets the next frame of an underlay channel. -/
  | receive (session underlay : ℕ)

variable {α : Type}

def Ending.frame (body : List α) : Ending → Frame α
  | .commit => .commit body
  | .rollback => .rollback

/-- The current underlay channel, if frames can be sent on it. -/
def live (s : Lifecycle.State) : Option ℕ :=
  s.channel.filter fun u => (s.underlays[u]?.map fun un => decide un.closeCallback.Armed).getD false

namespace User

/-- The task is in a block of the underlay channel, and has not ended it. -/
def Holds (u : ℕ) : User α → Prop
  | .inside v _ | .leaving v _ _ => v = u
  | .outside | .entering | .selecting _ | .ending _ _ _ => False

instance (u : ℕ) : DecidablePred (Holds u : User α → Prop)
  | .inside v _ | .leaving v _ _ => inferInstanceAs (Decidable (v = u))
  | .outside | .entering | .selecting _ | .ending _ _ _ => .isFalse id

/-- What the task publishes may be published on the underlay channel. -/
def Publishes (selects : List ℕ) (u : ℕ) : User α → Prop
  | .outside => u ∉ selects
  | .inside v _ => v = u
  | .entering | .selecting _ | .leaving _ _ _ | .ending _ _ _ => True

instance (selects : List ℕ) (u : ℕ) :
    DecidablePred (Publishes selects u : User α → Prop)
  | .outside => inferInstanceAs (Decidable (u ∉ selects))
  | .inside v _ => inferInstanceAs (Decidable (v = u))
  | .entering | .selecting _ | .leaving _ _ _ | .ending _ _ _ => .isTrue trivial

end User

namespace Session

variable (s : Session α)

def send (u : ℕ) (f : Frame α) : Session α :=
  { s with lines := Function.update s.lines u ((s.lines u).send f) }

def step : Event α → Option (Session α)
  | .lifecycle a => (Lifecycle.step s.channel a).map fun c => { s with channel := c }
  | .enter =>
    match s.user with
    | .outside => if s.channel.isClosed then none else some { s with user := .entering }
    | _ => none
  | .ready =>
    match s.user, live s.channel with
    | .entering, some u =>
      some { s.send u .select with selects := u :: s.selects, user := .selecting u }
    | .leaving _ body ending, some u =>
      some { s.send u (ending.frame body) with user := .ending u body ending }
    | .entering, none | .leaving _ _ _, none => some { s with user := .outside }
    | _, _ => none
  | .answered =>
    match s.user with
    | .selecting u =>
      if (s.lines u).Settled then some { s with user := .inside u [] } else none
    | .ending u _ _ => if (s.lines u).Settled then some { s with user := .outside } else none
    | _ => none
  | .raised =>
    match s.user with
    | .entering | .selecting _ | .leaving _ _ _ | .ending _ _ _ =>
      some { s with user := .outside }
    | .outside | .inside _ _ => none
  | .publish x =>
    match s.user, live s.channel with
    | .outside, some u => some (s.send u (.publish false x))
    | .inside v body, some u =>
      some { s.send u (.publish true x) with user := .inside v (body ++ [x]) }
    | _, _ => none
  | .leave raised =>
    match s.user with
    | .inside u body =>
      -- the `channel` of the transaction raises when it is closed
      if s.channel.isClosed then some { s with user := .outside }
      else some { s with user := .leaving u body (if raised then .rollback else .commit) }
    | _ => none

/-- Inside a block, what is published is published on the underlay channel that was selected, and
outside on one that never was. A block is not given up as long as its underlay channel lasts. -/
def Careful : Event α → Prop
  | .publish _ => ∀ u ∈ live s.channel, s.user.Publishes s.selects u
  | .raised => ∀ u ∈ live s.channel, ¬ s.user.Holds u
  | .leave _ => s.channel.isClosed = true → ∀ u ∈ live s.channel, ¬ s.user.Holds u
  | .lifecycle _ | .enter | .ready | .answered => True

instance : DecidablePred s.Careful
  | .publish _ => inferInstanceAs (Decidable (∀ u ∈ live s.channel, s.user.Publishes s.selects u))
  | .raised => inferInstanceAs (Decidable (∀ u ∈ live s.channel, ¬ s.user.Holds u))
  | .leave _ => inferInstanceAs (Decidable
      (s.channel.isClosed = true → ∀ u ∈ live s.channel, ¬ s.user.Holds u))
  | .lifecycle _ | .enter | .ready | .answered => .isTrue trivial

end Session

def step (s : State α) : Action α → Option (State α)
  | .event p e => do
    let session ← s.sessions[p]?
    let t ← session.step e
    return { s with sessions := s.sessions.set p t }
  | .receive p u => do
    let session ← s.sessions[p]?
    match (session.lines u).wire with
    | [] => none
    | f :: wire =>
      let mode := (session.lines u).mode
      let t := { session with lines := Function.update session.lines u ⟨mode.next f, wire⟩ }
      return ⟨s.sessions.set p t, s.log ++ mode.applied f, s.units ++ mode.meant f⟩

def fresh (n : ℕ) : State α :=
  ⟨List.replicate n ⟨Lifecycle.fresh, fun _ => .fresh, [], .outside⟩, [], []⟩

def Careful (s : State α) : Action α → Prop
  | .event p e => ∀ session ∈ s.sessions[p]?, session.Careful e
  | .receive _ _ => True

instance (s : State α) : DecidablePred (Careful s)
  | .event p e => inferInstanceAs (Decidable (∀ session ∈ s.sessions[p]?, session.Careful e))
  | .receive _ _ => .isTrue trivial

/-- The block that a task is in, with the underlay channel that was selected for it. -/
def User.block : User α → Option (ℕ × List α)
  | .selecting u => some (u, [])
  | .inside u body | .leaving u body _ => some (u, body)
  | .outside | .entering | .ending _ _ _ => none

/-- Where an underlay channel is after all that was sent on it. -/
structure Tracked (s : Session α) (u : ℕ) : Prop where
  fits : (s.lines u).Fitting
  plain : u ∉ s.selects → (s.lines u).last = .plain ∨ (s.lines u).last = .dead
  block : ∀ body, s.user.block = some (u, body) →
    (s.lines u).last = .transactional body ∨ (s.lines u).last = .dead
  idle : live s.channel = some u → (∀ body, s.user.block ≠ some (u, body)) →
    (s.lines u).last = .plain ∨ (s.lines u).last = .transactional [] ∨ (s.lines u).last = .dead

structure Kept (s : Session α) : Prop where
  issued : Transactions.Issued s.channel
  unused : ∀ u, ¬ Opened s.channel.underlays u → s.lines u = .fresh ∧ u ∉ s.selects
  tracked : ∀ u, Tracked s u
  /-- An underlay channel that has come after that of the block is not selected. -/
  later : ∀ v body u, s.user.block = some (v, body) → live s.channel = some u → u ≠ v →
    u ∉ s.selects
  opened : ∀ v body, s.user.block = some (v, body) → Opened s.channel.underlays v

section Channel

variable {s t : Lifecycle.State} {a : Lifecycle.Action} {u : ℕ}

theorem live_eq_some : live s = some u ↔ s.channel = some u ∧
    ∃ un, s.underlays[u]? = some un ∧ un.closeCallback.Armed := by
  rw [live, Option.filter_eq_some_iff]
  refine and_congr_right fun _ => ?_
  cases s.underlays[u]? with
  | none => simp
  | some un => simp

/-- Frames can be sent on the underlay channel that was current, or on a new one. -/
theorem live_step (hi : Transactions.Issued s) (hst : Lifecycle.step s a = some t)
    (hl : live t = some u) : live s = some u ∨ ¬ Opened s.underlays u := by
  obtain ⟨hc, un, hget, harmed⟩ := live_eq_some.mp hl
  rcases Transactions.channel_step hst with ⟨i, c, v, -, htask, hv⟩ | ⟨-, hnone⟩ | ⟨-, hsame⟩
  · obtain rfl := Option.some.inj (hc.symm.trans hv)
    exact Or.inr (hi.unopened i c u htask)
  · rw [hnone] at hc
    cases hc
  · refine Or.inl (live_eq_some.mpr ⟨hsame ▸ hc, ?_⟩)
    have hlt : u < s.underlays.length := Transactions.opened_lt (hi.current u (hsame ▸ hc))
    have hm := Firings.moves_of_step hst
    generalize t.underlays = us at hm hget
    cases hm with
    | keep => exact ⟨un, hget, harmed⟩
    | begun =>
      rw [List.getElem?_append_left hlt] at hget
      exact ⟨un, hget, harmed⟩
    | opened =>
      obtain ⟨un', hget', ⟨-, rfl⟩ | ⟨-, rfl⟩⟩ := Members.of_modify hget
      · exact ⟨un', hget', harmed⟩
      · exact ⟨un, hget', harmed⟩
    | called | started | ended =>
      obtain ⟨un', hget', ⟨-, rfl⟩ | ⟨-, rfl⟩⟩ := Members.of_modify hget
      · exact harmed.elim
      · exact ⟨un, hget', harmed⟩

end Channel

section Session

variable {s t : Session α} {e : Event α} {u v : ℕ} {body : List α} {f : Frame α}

theorem Kept.live_opened (hk : Kept s) (hl : live s.channel = some u) :
    Opened s.channel.underlays u :=
  hk.issued.current u (live_eq_some.mp hl).1

theorem Kept.lifecycle (hk : Kept s) {a : Lifecycle.Action} {c : Lifecycle.State}
    (hst : Lifecycle.step s.channel a = some c) : Kept { s with channel := c } := by
  have hunused : ∀ u, ¬ Opened c.underlays u → ¬ Opened s.channel.underlays u :=
    fun u => mt fun ho => Transactions.opened_step ho hst
  constructor
  · exact Transactions.issued_step hk.issued hst
  · exact fun u hu => hk.unused u (hunused u hu)
  · intro u
    refine ⟨(hk.tracked u).fits, (hk.tracked u).plain, (hk.tracked u).block, fun hl hb => ?_⟩
    rcases live_step hk.issued hst hl with hl | ho
    · exact (hk.tracked u).idle hl hb
    · refine Or.inl ?_
      simp only [(hk.unused u ho).1]
      rfl
  · intro v body u hb hl hne
    rcases live_step hk.issued hst hl with hl | ho
    · exact hk.later v body u hb hl hne
    · exact (hk.unused u ho).2
  · exact fun v body hb => Transactions.opened_step (hk.opened v body hb) hst

theorem Kept.move (hk : Kept s) {user : User α}
    (hb : ∀ v body, user.block = some (v, body) → s.user.block = some (v, body))
    (hi : ∀ u body, live s.channel = some u → s.user.block = some (u, body) →
      user.block = some (u, body) ∨ body = []) : Kept { s with user := user } := by
  constructor
  · exact hk.issued
  · exact hk.unused
  · intro u
    refine ⟨(hk.tracked u).fits, (hk.tracked u).plain,
      fun body h => (hk.tracked u).block body (hb u body h), fun hl hn => ?_⟩
    by_cases hblock : ∃ body, s.user.block = some (u, body)
    · obtain ⟨body, hblock⟩ := hblock
      rcases hi u body hl hblock with h | rfl
      · exact absurd h (hn body)
      · exact Or.inr ((hk.tracked u).block [] hblock)
    · rw [not_exists] at hblock
      exact (hk.tracked u).idle hl hblock
  · exact fun v body u h => hk.later v body u (hb v body h)
  · exact fun v body h => hk.opened v body (hb v body h)

theorem Kept.leave (hk : Kept s) {user : User α} (hu : user.block = none)
    (hi : ∀ u body, s.user.block = some (u, body) → live s.channel = some u → body = []) :
    Kept { s with user := user } := by
  apply hk.move
  · intro v body h
    rw [hu] at h
    cases h
  · exact fun u body hl h => Or.inr (hi u body h hl)

theorem Kept.send (hk : Kept s) (hl : live s.channel = some u) (hf : (s.lines u).last.Fits f)
    {user : User α} {selects : List ℕ} (hsub : s.selects ⊆ selects)
    (hsel : ∀ v ∈ selects, v ∈ s.selects ∨ v = u)
    (hplain : u ∉ selects → ((s.lines u).last.next f) = .plain ∨
      ((s.lines u).last.next f) = .dead)
    (hb : ∀ v body, user.block = some (v, body) →
      v = u ∧ ((s.lines u).last.next f = .transactional body ∨ (s.lines u).last.next f = .dead))
    (hi : (∀ body, user.block ≠ some (u, body)) → (s.lines u).last.next f = .plain ∨
      (s.lines u).last.next f = .transactional [] ∨ (s.lines u).last.next f = .dead) :
    Kept { s.send u f with selects := selects, user := user } := by
  have hopened := hk.live_opened hl
  have hself : (s.send u f).lines u = (s.lines u).send f := Function.update_self ..
  have hother : ∀ v, v ≠ u → (s.send u f).lines v = s.lines v :=
    fun v hv => Function.update_of_ne hv ..
  constructor
  · exact hk.issued
  · intro v hv
    have hne : v ≠ u := by
      rintro rfl
      exact hv hopened
    refine ⟨(hother v hne).trans (hk.unused v hv).1, fun hmem => ?_⟩
    rcases hsel v hmem with hmem | rfl
    · exact (hk.unused v hv).2 hmem
    · exact hne rfl
  · intro v
    by_cases hv : v = u
    · subst hv
      constructor
      · simp only [hself, Line.fitting_send]
        exact ⟨(hk.tracked v).fits, hf⟩
      · simp only [hself, Line.last_send]
        exact hplain
      · simp only [hself, Line.last_send]
        exact fun body h => (hb v body h).2
      · simp only [hself, Line.last_send]
        exact fun _ => hi
    · have hold := hk.tracked v
      constructor
      · simp only [hother v hv]
        exact hold.fits
      · simp only [hother v hv]
        exact fun hn => hold.plain fun hmem => hn (hsub hmem)
      · exact fun body h => absurd (hb v body h).1 hv
      · intro hl'
        exact absurd (Option.some.inj (hl'.symm.trans hl)) hv
  · intro v body w h hl' hne
    obtain ⟨rfl, -⟩ := hb v body h
    exact absurd (Option.some.inj (hl'.symm.trans hl)) hne
  · intro v body h
    obtain ⟨rfl, -⟩ := hb v body h
    exact hopened

theorem kept_step (hk : Kept s) (hc : s.Careful e) (hs : s.step e = some t) : Kept t := by
  cases e with
  | lifecycle a =>
    obtain ⟨c, hst, rfl⟩ := Option.map_eq_some_iff.mp hs
    exact hk.lifecycle hst
  | enter =>
    simp only [Session.step] at hs
    split at hs
    · rename_i huser
      split at hs
      · cases hs
      · obtain rfl := Option.some.inj hs
        exact hk.leave rfl (by simp [huser, User.block])
    · cases hs
  | ready =>
    simp only [Session.step] at hs
    split at hs
    · rename_i u huser hl
      obtain rfl := Option.some.inj hs
      have hidle := (hk.tracked u).idle hl (by simp [huser, User.block])
      have hnext : (s.lines u).last.next .select = .transactional [] ∨
          (s.lines u).last.next .select = .dead := by
        rcases hidle with h | h | h <;> simp [h, Mode.next]
      have hfits : (s.lines u).last.Fits .select := by
        rcases hidle with h | h | h <;> simp [h, Mode.Fits]
      refine hk.send hl hfits (List.subset_cons_self _ _) (fun v hv => ?_)
        (fun hn => absurd List.mem_cons_self hn) ?_ fun _ => Or.inr hnext
      · rcases List.mem_cons.mp hv with rfl | hv
        · exact Or.inr rfl
        · exact Or.inl hv
      · rintro v body h
        obtain ⟨rfl, rfl⟩ := Prod.mk.inj (Option.some.inj h)
        exact ⟨rfl, hnext⟩
    · rename_i v body ending u huser hl
      obtain rfl := Option.some.inj hs
      have hblock : s.user.block = some (v, body) := by simp [huser, User.block]
      -- the end of the block gets to its underlay channel, or to one that is not selected
      have hlast : (s.lines u).last = .transactional body ∨ (s.lines u).last = .plain ∨
          (s.lines u).last = .dead := by
        by_cases he : u = v
        · subst he
          exact ((hk.tracked u).block body hblock).imp_right Or.inr
        · exact Or.inr ((hk.tracked u).plain (hk.later v body u hblock hl he))
      have hfits : (s.lines u).last.Fits (ending.frame body) := by
        rcases hlast with h | h | h <;> cases ending <;> simp [h, Ending.frame, Mode.Fits]
      have hnext : (s.lines u).last.next (ending.frame body) = .transactional [] ∨
          (s.lines u).last.next (ending.frame body) = .dead := by
        rcases hlast with h | h | h <;> cases ending <;> simp [h, Ending.frame, Mode.next]
      refine hk.send hl hfits (List.Subset.refl _) (fun v hv => Or.inl hv) (fun hn => ?_)
        (by simp [User.block]) fun _ => Or.inr hnext
      rcases (hk.tracked u).plain hn with h | h <;> cases ending <;>
        simp [h, Ending.frame, Mode.next]
    · rename_i huser _
      obtain rfl := Option.some.inj hs
      exact hk.leave rfl (by simp [huser, User.block])
    · rename_i huser hl
      obtain rfl := Option.some.inj hs
      exact hk.leave rfl (by simp [hl])
    · cases hs
  | answered =>
    simp only [Session.step] at hs
    split at hs
    · rename_i u huser
      split at hs
      · obtain rfl := Option.some.inj hs
        refine hk.move (fun v body h => ?_) fun v body _ h => Or.inl ?_
        · exact huser ▸ h
        · rw [huser] at h
          exact h
      · cases hs
    · rename_i huser
      split at hs
      · obtain rfl := Option.some.inj hs
        exact hk.leave rfl (by simp [huser, User.block])
      · cases hs
    · cases hs
  | raised =>
    simp only [Session.step] at hs
    split at hs
    · rename_i huser
      obtain rfl := Option.some.inj hs
      exact hk.leave rfl (by simp [huser, User.block])
    · rename_i v huser
      obtain rfl := Option.some.inj hs
      apply hk.leave rfl
      intro u body h _
      rw [huser] at h
      exact (Prod.mk.inj (Option.some.inj h)).2.symm
    · rename_i v body' ending huser
      obtain rfl := Option.some.inj hs
      apply hk.leave rfl
      intro u body h hl
      refine absurd ?_ (hc u hl)
      rw [huser] at h ⊢
      exact (Prod.mk.inj (Option.some.inj h)).1
    · rename_i huser
      obtain rfl := Option.some.inj hs
      exact hk.leave rfl (by simp [huser, User.block])
    · cases hs
    · cases hs
  | publish x =>
    simp only [Session.step] at hs
    split at hs
    · rename_i u huser hl
      obtain rfl := Option.some.inj hs
      have hpub := hc u hl
      rw [huser] at hpub
      have hplain := (hk.tracked u).plain hpub
      have hfits : (s.lines u).last.Fits (.publish false x) := by
        rcases hplain with h | h <;> simp [h, Mode.Fits]
      have hnext : (s.lines u).last.next (.publish false x) = .plain ∨
          (s.lines u).last.next (.publish false x) = .dead := by
        rcases hplain with h | h <;> simp [h, Mode.next]
      have hkept : Kept { s.send u (.publish false x) with
          selects := s.selects
          user := s.user } := by
        refine hk.send hl hfits (List.Subset.refl _) (fun v hv => Or.inl hv) (fun _ => hnext)
          (fun v body h => ?_) fun _ => hnext.imp_right Or.inr
        rw [huser] at h
        cases h
      exact hkept
    · rename_i v body u huser hl
      obtain rfl := Option.some.inj hs
      have hpub := hc u hl
      rw [huser] at hpub
      obtain rfl : u = v := Eq.symm hpub
      have hblock := (hk.tracked u).block body (by simp [huser, User.block])
      have hfits : (s.lines u).last.Fits (.publish true x) := by
        rcases hblock with h | h <;> simp [h, Mode.Fits]
      have hnext : (s.lines u).last.next (.publish true x) = .transactional (body ++ [x]) ∨
          (s.lines u).last.next (.publish true x) = .dead := by
        rcases hblock with h | h <;> simp [h, Mode.next]
      have hkept : Kept { s.send u (.publish true x) with
          selects := s.selects
          user := .inside u (body ++ [x]) } := by
        refine hk.send hl hfits (List.Subset.refl _) (fun v hv => Or.inl hv) (fun hn => ?_)
          (fun w body' h => ?_) fun hn => absurd rfl (hn (body ++ [x]))
        · rcases hblock with h | h
          · rcases (hk.tracked u).plain hn with h' | h'
            · rw [h] at h'
              cases h'
            · rw [h] at h'
              cases h'
          · simp [h, Mode.next]
        · obtain ⟨rfl, rfl⟩ := Prod.mk.inj (Option.some.inj h)
          exact ⟨rfl, hnext⟩
      exact hkept
    · cases hs
  | leave raised =>
    simp only [Session.step] at hs
    split at hs
    · rename_i v body huser
      split at hs
      · rename_i hclosed
        obtain rfl := Option.some.inj hs
        apply hk.leave rfl
        intro u body' h hl
        refine absurd ?_ (hc hclosed u hl)
        rw [huser] at h ⊢
        exact (Prod.mk.inj (Option.some.inj h)).1
      · obtain rfl := Option.some.inj hs
        refine hk.move (fun w body' h => ?_) fun u body' _ h => Or.inl ?_
        · rw [huser]
          exact h
        · rw [huser] at h
          exact h
    · cases hs

theorem Kept.receive (hk : Kept s) {wire : List (Frame α)} (hw : (s.lines u).wire = f :: wire) :
    Kept { s with
      lines := Function.update s.lines u ⟨(s.lines u).mode.next f, wire⟩ } := by
  have hlast : ∀ v, (Function.update s.lines u ⟨(s.lines u).mode.next f, wire⟩ v).last =
      (s.lines v).last := by
    intro v
    by_cases hv : v = u
    · subst hv
      rw [Function.update_self]
      exact Line.last_receive hw
    · rw [Function.update_of_ne hv]
  constructor
  · exact hk.issued
  · intro v hv
    have hne : v ≠ u := by
      rintro rfl
      rw [(hk.unused v hv).1] at hw
      cases hw
    simp only [Function.update_of_ne hne]
    exact hk.unused v hv
  · intro v
    have hold := hk.tracked v
    refine ⟨?_, by simpa only [hlast] using hold.plain, by simpa only [hlast] using hold.block,
      by simpa only [hlast] using hold.idle⟩
    by_cases hv : v = u
    · subst hv
      simp only [Function.update_self]
      exact (Line.fitting_receive hold.fits hw).2
    · simp only [Function.update_of_ne hv]
      exact hold.fits
  · exact hk.later
  · exact hk.opened

theorem fresh_kept : Kept (⟨Lifecycle.fresh, fun _ => .fresh, [], .outside⟩ : Session α) := by
  constructor
  · exact Transactions.fresh_issued
  · exact fun u _ => ⟨rfl, List.not_mem_nil⟩
  · exact fun u => ⟨trivial, fun _ => Or.inl rfl, nofun, nofun⟩
  · exact nofun
  · exact nofun

end Session

open Transition

/-- The log is what was meant, and no frame that is on its way does anything else. -/
structure Serial (s : State α) : Prop where
  kept : ∀ session ∈ s.sessions, Kept session
  log : s.log = s.units.flatten

variable {s t : State α} {a : Action α} {as : List (Action α)} {n : ℕ}

theorem serial_step (h : Serial s) (hc : Careful s a) (hs : step s a = some t) : Serial t := by
  have hset : ∀ {p : ℕ} {session : Session α}, Kept session →
      ∀ x ∈ s.sessions.set p session, Kept x := by
    intro p session hk x hx
    rcases List.mem_or_eq_of_mem_set hx with hx | rfl
    · exact h.kept x hx
    · exact hk
  cases a with
  | event p e =>
    simp only [step, Option.bind_eq_bind, Option.bind_eq_some_iff, Option.pure_def,
      Option.some.injEq] at hs
    obtain ⟨session, hp, u, hu, rfl⟩ := hs
    exact ⟨hset (kept_step (h.kept session (List.mem_of_getElem? hp)) (hc session hp) hu), h.log⟩
  | receive p u =>
    simp only [step, Option.bind_eq_bind, Option.bind_eq_some_iff, Option.pure_def] at hs
    obtain ⟨session, hp, hs⟩ := hs
    have hk := h.kept session (List.mem_of_getElem? hp)
    split at hs
    · cases hs
    · rename_i f wire hw
      obtain rfl := Option.some.inj hs
      refine ⟨hset (hk.receive hw), ?_⟩
      have hfits := (Line.fitting_receive (hk.tracked u).fits hw).1
      rw [h.log, Mode.applied_eq hfits, List.flatten_append]

theorem fresh_serial : Serial (fresh n : State α) where
  kept session hs := by
    rw [List.eq_of_mem_replicate hs]
    exact fresh_kept
  log := rfl

/-- Transaction blocks are atomic and isolated: on any number of channels that are restored,
reopened and closed at any time, what has taken effect is the blocks that the broker has committed,
each as a whole and one after the other, and single publications from outside. -/
theorem blocks_atomic (hr : Run step Careful (fresh n) as s) : s.log = s.units.flatten :=
  (hr.invariant (fun _ _ _ h hc hs => serial_step h hc hs) fresh_serial).log

def opening : List Lifecycle.Action :=
  [.call .initialization, .connected 0, .created 0, .opened 0, .returned 0]

/-- Another channel publishes while a block is committed. -/
theorem published_between : ∃ s, Run step Careful (fresh 2)
    (opening.map (fun a => .event 0 (.lifecycle a)) ++
      opening.map (fun a => .event 1 (.lifecycle a)) ++
      [.event 0 .enter, .event 0 .ready, .receive 0 0, .event 0 .answered, .event 0 (.publish 1),
        .receive 0 0, .event 1 (.publish 7), .event 0 (.publish 2), .receive 1 0,
        .event 0 (.leave false), .event 0 .ready, .receive 0 0, .receive 0 0,
        .event 0 .answered]) s ∧
    s.log = s.units.flatten ∧ s.units = [[7], [1, 2]] := by
  obtain ⟨s, hs⟩ : ∃ s, checked step Careful (fresh 2)
    (opening.map (fun a => .event 0 (.lifecycle a)) ++
      opening.map (fun a => .event 1 (.lifecycle a)) ++
      [.event 0 .enter, .event 0 .ready, .receive 0 0, .event 0 .answered, .event 0 (.publish 1),
        .receive 0 0, .event 1 (.publish 7), .event 0 (.publish 2), .receive 1 0,
        .event 0 (.leave false), .event 0 .ready, .receive 0 0, .receive 0 0,
        .event 0 .answered]) = some s := ⟨_, rfl⟩
  have hr := run_of_checked hs
  obtain rfl := Option.some.inj hs
  exact ⟨_, hr, blocks_atomic hr, rfl⟩

/-- A channel is restored during a block: half of the block takes effect at once, and its commit
closes the new underlay channel. -/
example : (checked step (fun _ _ => True) (fresh 1)
    (opening.map (fun a => .event 0 (.lifecycle a)) ++
      [.event 0 .enter, .event 0 .ready, .receive 0 0, .event 0 .answered,
        .event 0 (.publish 1)] ++
      [.closed 0 none, .callbackStarted 0, .locked 1, .connected 1, .created 1, .opened 1,
        .returned 1].map (fun a => .event 0 (.lifecycle a)) ++
      [.event 0 (.publish 2), .event 0 (.leave false), .event 0 .ready, .receive 0 1,
        .receive 0 1])).map (fun s => (s.log, s.units)) = some ([2], []) := by
  rfl

/-- A commit that was sent is on its way, or accepted, or has killed its underlay channel. -/
def Promised (s : State α) : Prop := ∀ session ∈ s.sessions, ∀ u body,
  session.user = .ending u body .commit → (session.lines u).Commits body ∨ body ∈ s.units

theorem promised_session {session t : Session α} {e : Event α} {units : List (List α)}
    (h : ∀ u body, session.user = .ending u body .commit →
      (session.lines u).Commits body ∨ body ∈ units)
    (hs : session.step e = some t) : ∀ u body, t.user = .ending u body .commit →
      (t.lines u).Commits body ∨ body ∈ units := by
  cases e with
  | lifecycle a =>
    obtain ⟨c, -, rfl⟩ := Option.map_eq_some_iff.mp hs
    exact h
  | ready =>
    simp only [Session.step] at hs
    split at hs
    · obtain rfl := Option.some.inj hs
      exact nofun
    · rename_i v body ending u huser hl
      obtain rfl := Option.some.inj hs
      rintro u' body' heq
      obtain ⟨rfl, rfl, rfl⟩ := User.ending.inj heq
      refine Or.inl (Or.inl ⟨(session.lines u).wire, ?_⟩)
      simp only [Session.send, Function.update_self]
      rfl
    · obtain rfl := Option.some.inj hs
      exact nofun
    · obtain rfl := Option.some.inj hs
      exact nofun
    · cases hs
  | publish x =>
    simp only [Session.step] at hs
    split at hs
    · rename_i u huser hl
      obtain rfl := Option.some.inj hs
      intro v body heq
      rw [show session.user = _ from heq] at huser
      cases huser
    · obtain rfl := Option.some.inj hs
      exact nofun
    · cases hs
  | enter =>
    simp only [Session.step] at hs
    split at hs
    · split at hs
      · cases hs
      · obtain rfl := Option.some.inj hs
        exact nofun
    · cases hs
  | answered =>
    simp only [Session.step] at hs
    split at hs
    · split at hs
      · obtain rfl := Option.some.inj hs
        exact nofun
      · cases hs
    · split at hs
      · obtain rfl := Option.some.inj hs
        exact nofun
      · cases hs
    · cases hs
  | raised =>
    simp only [Session.step] at hs
    split at hs
    · obtain rfl := Option.some.inj hs
      exact nofun
    · obtain rfl := Option.some.inj hs
      exact nofun
    · obtain rfl := Option.some.inj hs
      exact nofun
    · obtain rfl := Option.some.inj hs
      exact nofun
    · cases hs
    · cases hs
  | leave raised =>
    simp only [Session.step] at hs
    split at hs
    · split at hs
      · obtain rfl := Option.some.inj hs
        exact nofun
      · obtain rfl := Option.some.inj hs
        exact nofun
    · cases hs

theorem promised_step (h : Promised s) (hs : step s a = some t) : Promised t := by
  cases a with
  | event p e =>
    simp only [step, Option.bind_eq_bind, Option.bind_eq_some_iff, Option.pure_def,
      Option.some.injEq] at hs
    obtain ⟨session, hp, x, hx, rfl⟩ := hs
    intro y hy
    rcases List.mem_or_eq_of_mem_set hy with hy | rfl
    · exact h y hy
    · exact promised_session (h session (List.mem_of_getElem? hp)) hx
  | receive p u =>
    simp only [step, Option.bind_eq_bind, Option.bind_eq_some_iff, Option.pure_def] at hs
    obtain ⟨session, hp, hs⟩ := hs
    split at hs
    · cases hs
    · rename_i f wire hw
      obtain rfl := Option.some.inj hs
      intro y hy v body heq
      rcases List.mem_or_eq_of_mem_set hy with hy | rfl
      · exact (h y hy v body heq).imp_right fun hm => List.mem_append_left _ hm
      · rcases h session (List.mem_of_getElem? hp) v body heq with hcommits | hmem
        · by_cases hv : v = u
          · subst hv
            simp only [Function.update_self]
            exact (Line.commits_receive hcommits hw).imp_right fun hm => List.mem_append_right _ hm
          · simp only [Function.update_of_ne hv]
            exact Or.inl hcommits
        · exact Or.inr (List.mem_append_left _ hmem)

/-- A block that is left without an exception has taken effect: its publications are in the log, one
after the other. -/
theorem committed_block_logged (hr : Run step Careful (fresh n) as s) {p : ℕ}
    {session session' : Session α} (hp : s.sessions[p]? = some session) {u : ℕ} {body : List α}
    (hu : session.user = .ending u body .commit) (hs : session.step .answered = some session') :
    body <:+: s.log := by
  have hpromised : Promised s := by
    refine hr.invariant (fun _ _ _ h _ hs => promised_step h hs) ?_
    intro session hmem u body hu
    rw [List.eq_of_mem_replicate hmem] at hu
    cases hu
  have hmem : body ∈ s.units := by
    simp only [Session.step, hu] at hs
    split at hs
    · rename_i hsettled
      rcases hpromised session (List.mem_of_getElem? hp) u body hu with (⟨fs, hw⟩ | hd) | hmem
      · rw [hsettled.1] at hw
        cases fs <;> cases hw
      · exact absurd hd hsettled.2
      · exact hmem
    · cases hs
  rw [blocks_atomic hr]
  exact List.infix_of_mem_flatten hmem

/-- The block that is committed above. -/
theorem committed_logged : ∃ s session session', Run step Careful (fresh 1)
    (opening.map (fun a => .event 0 (.lifecycle a)) ++
      [.event 0 .enter, .event 0 .ready, .receive 0 0, .event 0 .answered, .event 0 (.publish 1),
        .event 0 (.publish 2), .event 0 (.leave false), .event 0 .ready, .receive 0 0,
        .receive 0 0, .receive 0 0]) s ∧
    s.sessions[0]? = some session ∧ session.user = .ending 0 [1, 2] .commit ∧
    session.step .answered = some session' ∧ [1, 2] <:+: s.log := by
  obtain ⟨s, hs⟩ : ∃ s, checked step Careful (fresh 1)
    (opening.map (fun a => .event 0 (.lifecycle a)) ++
      [.event 0 .enter, .event 0 .ready, .receive 0 0, .event 0 .answered, .event 0 (.publish 1),
        .event 0 (.publish 2), .event 0 (.leave false), .event 0 .ready, .receive 0 0,
        .receive 0 0, .receive 0 0]) = some s := ⟨_, rfl⟩
  have hr := run_of_checked hs
  obtain rfl := Option.some.inj hs
  refine ⟨_, _, _, hr, rfl, rfl, rfl, ?_⟩
  exact committed_block_logged hr (p := 0) (u := 0) rfl rfl rfl

end AioPika.Blocks
