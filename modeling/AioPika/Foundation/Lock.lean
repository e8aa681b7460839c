import AioPika.Foundation.Simulation

/-! # Programs that hold a lock

A lock that is not re-entrant makes a program wait for itself if it is acquired
twice, and nothing after that happens. A program that has ended has released it,
however it has ended.
-/

inductive Stop (ε : Type) where
  /-- an `Exception` -/
  | raised (exc : ε)
  /-- a `BaseException` that is no `Exception` -/
  | escaped
  /-- It waits for a lock that it holds. -/
  | blocked
  deriving DecidableEq, Repr

structure Lock (σ : Type) where
  isLocked : σ → Bool
  set : Bool → σ → σ

namespace Lock

variable {ε δ σ τ α : Type}

/-- `with lock: ...` -/
def hold (l : Lock σ) (body : EStateM (Stop ε) σ α) : EStateM (Stop ε) σ α := fun s =>
  if l.isLocked s then .error .blocked s
  else
    match body (l.set true s) with
    | .ok a t => .ok a (l.set false t)
    | .error .blocked t => .error .blocked t
    | .error e t => .error e (l.set false t)

/-- `try: ... except Exception: ...` -/
def caught (body : EStateM (Stop ε) σ α) : EStateM (Stop ε) σ (Except ε α) := fun s =>
  match body s with
  | .ok a t => .ok (.ok a) t
  | .error (.raised e) t => .ok (.error e) t
  | .error .escaped t => .error .escaped t
  | .error .blocked t => .error .blocked t

variable {l : Lock σ} {body : EStateM (Stop ε) σ α} {s t : σ}

theorem hold_locked (h : l.isLocked s = true) : l.hold body s = .error .blocked s := by
  unfold hold
  rw [if_pos h]

theorem hold_eq (h : l.isLocked s = false) : l.hold body s =
    match body (l.set true s) with
    | .ok a t => .ok a (l.set false t)
    | .error .blocked t => .error .blocked t
    | .error e t => .error e (l.set false t) := by
  unfold hold
  rw [if_neg (ne_true_of_eq_false h)]

theorem hold_ok {a : α} (h : l.isLocked s = false) (hb : body (l.set true s) = .ok a t) :
    l.hold body s = .ok a (l.set false t) := by
  rw [hold_eq h, hb]

theorem hold_escaped (h : l.isLocked s = false) (hb : body (l.set true s) = .error .escaped t) :
    l.hold body s = .error .escaped (l.set false t) := by
  rw [hold_eq h, hb]

theorem hold_blocked (h : l.isLocked s = false) (hb : body (l.set true s) = .error .blocked t) :
    l.hold body s = .error .blocked t := by
  rw [hold_eq h, hb]

theorem caught_ok {a : α} (h : body s = .ok a t) : caught body s = .ok (.ok a) t := by
  unfold caught
  rw [h]

theorem caught_raised {e : ε} (h : body s = .error (.raised e) t) :
    caught body s = .ok (.error e) t := by
  unfold caught
  rw [h]

theorem caught_escaped (h : body s = .error .escaped t) : caught body s = .error .escaped t := by
  unfold caught
  rw [h]

theorem caught_blocked (h : body s = .error .blocked t) : caught body s = .error .blocked t := by
  unfold caught
  rw [h]

/-- A block that never waits ends as its body does. -/
theorem matches_hold {R R' : σ → τ → Prop} {e : δ → ε} {r : EStateM.Result δ τ α}
    (hfree : l.isLocked s = false)
    (hbody : Coroutine.Matches R' (fun x => .raised (e x)) (body (l.set true s)) r)
    (hunset : ∀ s t, R' s t → R (l.set false s) t) :
    Coroutine.Matches R (fun x => .raised (e x)) (l.hold body s) r := by
  rw [hold_eq hfree]
  cases r with
  | ok a t' =>
    obtain ⟨s', hs, hr⟩ := hbody.ok_iff
    rw [hs]
    exact .ok a (hunset _ _ hr)
  | error x t' =>
    obtain ⟨s', hs, hr⟩ := hbody.error_iff
    rw [hs]
    exact .error x (hunset _ _ hr)

end Lock
