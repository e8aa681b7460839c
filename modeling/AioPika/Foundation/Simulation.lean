import AioPika.Foundation.Coroutine

/-! # Simulations of programs

Two programs over different states simulate each other if, from related states,
both return the same value or both raise the same exception, and leave related
states behind.
-/

namespace Coroutine

variable {ε δ σ τ α β γ : Type} {R : σ → τ → Prop} {e : δ → ε}

/-- The same value or the same exception, in related states. -/
inductive Matches (R : σ → τ → Prop) (e : δ → ε) :
    EStateM.Result ε σ α → EStateM.Result δ τ α → Prop
  | ok (a : α) {s : σ} {t : τ} (h : R s t) : Matches R e (.ok a s) (.ok a t)
  | error (x : δ) {s : σ} {t : τ} (h : R s t) : Matches R e (.error (e x) s) (.error x t)

def Simulates (R : σ → τ → Prop) (e : δ → ε) (f : EStateM ε σ α) (g : EStateM δ τ α) : Prop :=
  ∀ s t, R s t → Matches R e (f s) (g t)

def final : EStateM.Result ε σ α → σ
  | .ok _ s | .error _ s => s

def outcome : EStateM.Result ε σ α → Except ε α
  | .ok a _ => .ok a
  | .error x _ => .error x

variable {f : EStateM ε σ α} {g : EStateM δ τ α} {s : σ} {t : τ}

theorem Matches.final {r : EStateM.Result ε σ α} {r' : EStateM.Result δ τ α}
    (h : Matches R e r r') : R (Coroutine.final r) (Coroutine.final r') := by
  cases h with
  | ok _ h => exact h
  | error _ h => exact h

theorem Matches.outcome {r : EStateM.Result ε σ α} {r' : EStateM.Result δ τ α}
    (h : Matches R e r r') : Coroutine.outcome r = (Coroutine.outcome r').mapError e := by
  cases h with
  | ok _ _ => rfl
  | error _ _ => rfl

theorem Matches.ok_iff {a : α} {t' : τ} {r : EStateM.Result ε σ α}
    (h : Matches R e r (.ok a t')) : ∃ s', r = .ok a s' ∧ R s' t' := by
  cases h with
  | ok _ hr => exact ⟨_, rfl, hr⟩

theorem Matches.error_iff {x : δ} {t' : τ} {r : EStateM.Result ε σ α}
    (h : Matches R e r (.error x t')) : ∃ s', r = .error (e x) s' ∧ R s' t' := by
  cases h with
  | error _ hr => exact ⟨_, rfl, hr⟩

theorem simulates_pure (a : α) :
    Simulates R e (pure a : EStateM ε σ α) (pure a : EStateM δ τ α) :=
  fun _ _ h => .ok a h

theorem Simulates.bind {f' : α → EStateM ε σ β} {g' : α → EStateM δ τ β} (h : Simulates R e f g)
    (h' : ∀ a, Simulates R e (f' a) (g' a)) : Simulates R e (f >>= f') (g >>= g') := by
  intro s t hr
  have hm := h s t hr
  cases hg : g t with
  | ok a t' =>
    rw [hg] at hm
    obtain ⟨s', hs, hr'⟩ := hm.ok_iff
    rw [bind_ok hs, bind_ok hg]
    exact h' a s' t' hr'
  | error x t' =>
    rw [hg] at hm
    obtain ⟨s', hs, hr'⟩ := hm.error_iff
    rw [bind_error hs, bind_error hg]
    exact .error x hr'

theorem simulates_get {f : σ → EStateM ε σ α} {g : τ → EStateM δ τ α}
    (h : ∀ s t, R s t → Matches R e (f s s) (g t t)) :
    Simulates R e (get >>= f) (get >>= g) :=
  fun s t hr => h s t hr

theorem simulates_guard {p : σ → Prop} {q : τ → Prop} [DecidablePred p] [DecidablePred q] {x : δ}
    (hpq : ∀ s t, R s t → (p s ↔ q t))
    (h : ∀ s t, R s t → ¬ q t → Matches R e (f s) (g t)) :
    Simulates R e (get >>= fun s => if p s then throw (e x) else f)
      (get >>= fun t => if q t then throw x else g) := by
  intro s t hr
  by_cases hq : q t
  · rw [guard_error ((hpq s t hr).mpr hq), guard_error hq]
    exact .error x hr
  · rw [guard_ok fun hp => hq ((hpq s t hr).mp hp), guard_ok hq]
    exact h s t hr hq

theorem simulates_forM {f : γ → EStateM ε σ PUnit} {g : γ → EStateM δ τ PUnit} {l : List γ}
    (h : ∀ c ∈ l, Simulates R e (f c) (g c)) : Simulates R e (l.forM f) (l.forM g) := by
  induction l with
  | nil => exact simulates_pure ()
  | cons c l ih =>
    have hc := h c List.mem_cons_self
    exact hc.bind fun _ => ih fun c hm => h c (List.mem_cons_of_mem _ hm)

end Coroutine
