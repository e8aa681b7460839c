import Mathlib.Data.List.Basic
import Mathlib.Order.Basic

/-! # Runs of labelled transition systems

A system is a partial step function: `none` means that the action is not
possible in the state. A run may be restricted by a condition on the state
before each step, and an invariant is preserved along every run whose steps
meet the condition; what each step adds to a value, a run adds up.
-/

namespace Transition

variable {σ α : Type*}

/-- Runs of a step function, every step of which meets `ok` in the state it leaves. -/
inductive Run (step : σ → α → Option σ) (ok : σ → α → Prop) : σ → List α → σ → Prop
  | nil (s : σ) : Run step ok s [] s
  | cons {s t u : σ} {a : α} {as : List α} :
      ok s a → step s a = some t → Run step ok t as u → Run step ok s (a :: as) u

def Reach (init : σ → Prop) (step : σ → α → Option σ) (ok : σ → α → Prop) (s : σ) : Prop :=
  ∃ s₀ as, init s₀ ∧ Run step ok s₀ as s

variable {init : σ → Prop} {step : σ → α → Option σ} {ok : σ → α → Prop} {s t : σ} {as : List α}

theorem Run.append {u : σ} {bs : List α} (h : Run step ok s as t) (h' : Run step ok t bs u) :
    Run step ok s (as ++ bs) u := by
  induction h with
  | nil => exact h'
  | cons ho hst _ ih => exact .cons ho hst (ih h')

/-- What has come about in a run has come about in one of its steps. -/
theorem Run.comes_about {P : σ → Prop} (h : Run step ok s as t) (hs : ¬ P s) (ht : P t) :
    ∃ pre a post u v, as = pre ++ a :: post ∧ Run step ok s pre u ∧ ¬ P u ∧ ok u a ∧
      step u a = some v ∧ P v ∧ Run step ok v post t := by
  induction h with
  | nil => exact absurd ht hs
  | @cons s s' t a as ho hst hr ih =>
    by_cases hP : P s'
    · exact ⟨[], a, as, s, s', rfl, .nil s, hs, ho, hst, hP, hr⟩
    · obtain ⟨pre, b, post, u, v, rfl, hpre, hu, hb, huv, hv, hpost⟩ := ih hP ht
      exact ⟨a :: pre, b, post, u, v, rfl, .cons ho hst hpre, hu, hb, huv, hv, hpost⟩

theorem Run.unique {u : σ} (h : Run step ok s as t) (h' : Run step ok s as u) : t = u := by
  induction h with
  | nil =>
    cases h'
    rfl
  | cons _ hst _ ih =>
    cases h' with
    | cons _ hst' h' =>
      obtain rfl := Option.some.inj (hst.symm.trans hst')
      exact ih h'

/-- What every admissible step preserves, every admissible run preserves. -/
theorem Run.invariant {I : σ → Prop}
    (hI : ∀ s a t, I s → ok s a → step s a = some t → I t)
    (h : Run step ok s as t) (hs : I s) : I t := by
  induction h with
  | nil => exact hs
  | cons ho hst _ ih => exact ih (hI _ _ _ hs ho hst)

/-- A value that every step with a property raises by one, and that no other step changes, counts
those steps, as long as an invariant holds. -/
theorem Run.count_of {I : σ → Prop} (value : σ → ℕ) (p : α → Bool)
    (hI : ∀ s a t, I s → ok s a → step s a = some t → I t)
    (hstep : ∀ s a t, I s → ok s a → step s a = some t →
      value t = value s + if p a then 1 else 0)
    (h : Run step ok s as t) (hs : I s) : value t = value s + as.countP p := by
  induction h with
  | nil => simp
  | cons ho hst _ ih =>
    rw [ih (hI _ _ _ hs ho hst), hstep _ _ _ hs ho hst, List.countP_cons]
    omega

theorem Run.count (value : σ → ℕ) (p : α → Bool)
    (hstep : ∀ s a t, step s a = some t → value t = value s + if p a then 1 else 0)
    (h : Run step ok s as t) : value t = value s + as.countP p :=
  h.count_of (I := fun _ => True) value p (fun _ _ _ _ _ _ => trivial)
    (fun s a t _ _ => hstep s a t) trivial

/-- Perform a list of actions, if all of them are possible and meet `ok`. -/
def checked (step : σ → α → Option σ) (ok : σ → α → Prop) [∀ s a, Decidable (ok s a)] :
    σ → List α → Option σ
  | s, [] => some s
  | s, a :: as => if ok s a then (step s a).bind (checked step ok · as) else none

theorem run_of_checked [∀ s a, Decidable (ok s a)] (h : checked step ok s as = some t) :
    Run step ok s as t := by
  induction as generalizing s with
  | nil =>
    obtain rfl : s = t := Option.some.inj h
    exact .nil s
  | cons a as ih =>
    rw [checked] at h
    split at h
    · rename_i ho
      obtain ⟨s', hs, h'⟩ := Option.bind_eq_some_iff.mp h
      exact .cons ho hs (ih h')
    · cases h

theorem Reach.of_checked [∀ s a, Decidable (ok s a)] {s₀ : σ} (as : List α) (hi : init s₀)
    (h : checked step ok s₀ as = some s) : Reach init step ok s :=
  ⟨s₀, as, hi, run_of_checked h⟩

theorem Reach.invariant {I : σ → Prop} (h₀ : ∀ s, init s → I s)
    (hI : ∀ s a t, I s → ok s a → step s a = some t → I t)
    (h : Reach init step ok s) : I s := by
  obtain ⟨s₀, as, hi, hr⟩ := h
  exact hr.invariant hI (h₀ s₀ hi)

/-- `I` holds in every state visited while performing the actions. -/
def Throughout (step : σ → α → Option σ) (I : σ → Prop) : σ → List α → Prop
  | s, [] => I s
  | s, a :: as => I s ∧ ∀ t, step s a = some t → Throughout step I t as

/-- `ok` holds of every step taken while performing the actions. -/
def EachStep (step : σ → α → Option σ) (ok : σ → α → Prop) : σ → List α → Prop
  | _, [] => True
  | s, a :: as => ∀ t, step s a = some t → ok s a ∧ EachStep step ok t as

/-- If `ok` says exactly which steps keep `I`, then `I` holds throughout a run exactly when
every step of the run meets `ok`. The states may satisfy a further invariant `J`, which need
only be preserved as long as `I` is, and the actions of the run a condition `P`. -/
theorem throughout_iff_eachStep_of {I J : σ → Prop} {P : α → Prop}
    (hJ : ∀ s a t, P a → J s → I s → step s a = some t → I t → J t)
    (hI : ∀ s a t, P a → J s → I s → step s a = some t → (I t ↔ ok s a))
    (hP : ∀ a ∈ as, P a) (hj : J s) (hs : I s) :
    Throughout step I s as ↔ EachStep step ok s as := by
  induction as generalizing s with
  | nil => simp [Throughout, EachStep, hs]
  | cons a as ih =>
    have hPa : P a := hP a List.mem_cons_self
    have hPas : ∀ a ∈ as, P a := fun b hb => hP b (List.mem_cons_of_mem a hb)
    constructor
    · rintro ⟨-, h⟩ t ht
      have ha : I t := by
        have hth := h t ht
        cases as with
        | nil => exact hth
        | cons => exact hth.1
      have hjt : J t := hJ s a t hPa hj hs ht ha
      exact ⟨(hI s a t hPa hj hs ht).mp ha, (ih hPas hjt ha).mp (h t ht)⟩
    · intro h
      constructor
      · exact hs
      · intro t ht
        obtain ⟨ho, hr⟩ := h t ht
        have ha : I t := (hI s a t hPa hj hs ht).mpr ho
        exact (ih hPas (hJ s a t hPa hj hs ht ha) ha).mpr hr

theorem throughout_iff_eachStep {I J : σ → Prop}
    (hJ : ∀ s a t, J s → I s → step s a = some t → I t → J t)
    (hI : ∀ s a t, J s → I s → step s a = some t → (I t ↔ ok s a)) (hj : J s) (hs : I s) :
    Throughout step I s as ↔ EachStep step ok s as :=
  throughout_iff_eachStep_of (P := fun _ => True) (fun s a t _ => hJ s a t)
    (fun s a t _ => hI s a t) (fun _ _ => trivial) hj hs

end Transition
