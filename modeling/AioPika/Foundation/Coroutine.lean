import Mathlib.Data.List.Basic

/-! # Coroutines that change a state and may raise

A coroutine run to its end is a state transformer that returns or raises, and
keeps the state it had reached when it raises. The rules below compare two
loops over one list and carry an invariant of the state through them; a coroutine
that only adds to a log adds the whole of a plan, or a beginning of it if it raises.
-/

namespace Coroutine

variable {ε σ α : Type}

theorem bind_ok {β : Type} {x : EStateM ε σ α} {f : α → EStateM ε σ β} {s t : σ} {a : α}
    (h : x s = .ok a t) : (x >>= f) s = f a t := by
  change EStateM.bind x f s = _
  simp [EStateM.bind, h]

theorem bind_error {β : Type} {x : EStateM ε σ α} {f : α → EStateM ε σ β} {s t : σ} {e : ε}
    (h : x s = .error e t) : (x >>= f) s = .error e t := by
  change EStateM.bind x f s = _
  simp [EStateM.bind, h]

theorem bind_eq_ok {β : Type} {x : EStateM ε σ α} {f : α → EStateM ε σ β} {s u : σ} {b : β}
    (h : (x >>= f) s = .ok b u) : ∃ a t, x s = .ok a t ∧ f a t = .ok b u := by
  cases hx : x s with
  | ok a t => exact ⟨a, t, rfl, (bind_ok hx).symm.trans h⟩
  | error e t => rw [bind_error hx] at h; cases h

section Run

variable {x : EStateM ε σ α} {s : σ}

theorem bind_run {β : Type} {f : α → EStateM ε σ β} : (x >>= f) s =
    match x s with
    | .ok a t => f a t
    | .error e t => .error e t := rfl

theorem get_run : (get : EStateM ε σ σ) s = .ok s s := rfl

theorem modify_run {f : σ → σ} : (modify f : EStateM ε σ PUnit) s = .ok () (f s) := rfl

theorem pure_run {a : α} : (pure a : EStateM ε σ α) s = .ok a s := rfl

variable {p : σ → Prop} [DecidablePred p] {e : ε}

theorem guard_error (h : p s) : (get >>= fun s => if p s then throw e else x) s = .error e s := by
  rw [bind_ok get_run, if_pos h]
  rfl

theorem guard_ok (h : ¬ p s) : (get >>= fun s => if p s then throw e else x) s = x s := by
  rw [bind_ok get_run, if_neg h]

end Run

theorem tryCatch_ok {x : EStateM ε σ α} {handler : ε → EStateM ε σ α} {s t : σ} {a : α}
    (h : x s = .ok a t) : (tryCatch x handler : EStateM ε σ α) s = .ok a t := by
  change EStateM.tryCatch x handler s = _
  simp [EStateM.tryCatch, h]

theorem tryCatch_error {x : EStateM ε σ α} {handler : ε → EStateM ε σ α} {s t : σ} {e : ε}
    (h : x s = .error e t) : (tryCatch x handler : EStateM ε σ α) s = handler e t := by
  change EStateM.tryCatch x handler s = _
  simp [EStateM.tryCatch, h]
  rfl

/-- Two loops over one list agree where their bodies agree, as long as the states in which
the bodies are run satisfy a common invariant. -/
theorem forM_congr {I : σ → Prop} {f g : α → EStateM ε σ PUnit} {l : List α} {s : σ}
    (hs : I s) (hfg : ∀ a ∈ l, ∀ s, I s → f a s = g a s)
    (hI : ∀ a ∈ l, ∀ s t u, I s → g a s = .ok u t → I t) : l.forM f s = l.forM g s := by
  induction l generalizing s with
  | nil => rfl
  | cons a l ih =>
    change (f a >>= fun _ => l.forM f) s = (g a >>= fun _ => l.forM g) s
    have ha := hfg a List.mem_cons_self s hs
    cases hg : g a s with
    | ok u t =>
      rw [bind_ok (ha.trans hg), bind_ok hg]
      exact ih (hI a List.mem_cons_self s t u hs hg)
        (fun b hb => hfg b (List.mem_cons_of_mem _ hb))
        (fun b hb => hI b (List.mem_cons_of_mem _ hb))
    | error e t => rw [bind_error (ha.trans hg), bind_error hg]

theorem forM_append {f : α → EStateM ε σ PUnit} {l l' : List α} {s : σ} :
    (l ++ l').forM f s = (l.forM f >>= fun _ => l'.forM f) s := by
  induction l generalizing s with
  | nil => rfl
  | cons a l ih =>
    change (f a >>= fun _ => (l ++ l').forM f) s =
      ((f a >>= fun _ => l.forM f) >>= fun _ => l'.forM f) s
    cases ha : f a s with
    | ok u t => rw [bind_ok ha, ih, bind_assoc, bind_ok ha]
    | error e t => rw [bind_error ha, bind_error (bind_error ha)]

theorem forM_map {β : Type} {f : β → EStateM ε σ PUnit} {g : α → β} {l : List α} {s : σ} :
    (l.map g).forM f s = l.forM (fun a => f (g a)) s := by
  induction l generalizing s with
  | nil => rfl
  | cons a l ih =>
    change (f (g a) >>= fun _ => (l.map g).forM f) s =
      (f (g a) >>= fun _ => l.forM fun a => f (g a)) s
    cases ha : f (g a) s with
    | ok u t => rw [bind_ok ha, bind_ok ha, ih]
    | error e t => rw [bind_error ha, bind_error ha]

section Emits

variable {κ ρ β : Type} {keep : σ → κ} {log : σ → List ρ} {f : EStateM ε σ α}
  {plan plan' : List ρ} {s t : σ}

/-- A coroutine keeps a part of the state, and logs a plan, or a beginning of it if it raises. -/
def Emits (keep : σ → κ) (log : σ → List ρ) (f : EStateM ε σ α) (plan : List ρ) (s : σ) : Prop :=
  match f s with
  | .ok _ t => keep t = keep s ∧ log t = log s ++ plan
  | .error _ t => keep t = keep s ∧ ∃ begun, begun <+: plan ∧ log t = log s ++ begun

theorem emits_pure (a : α) : Emits keep log (pure a : EStateM ε σ α) [] s :=
  ⟨rfl, (List.append_nil _).symm⟩

theorem emits_of_error {e : ε} (h : f s = .error e s) : Emits keep log f plan s := by
  unfold Emits
  rw [h]
  exact ⟨rfl, [], List.nil_prefix, (List.append_nil _).symm⟩

theorem Emits.congr {g : EStateM ε σ α} (h : Emits keep log f plan s) (hg : g s = f s) :
    Emits keep log g plan s := by
  unfold Emits
  rw [hg]
  exact h

theorem Emits.bind {g : α → EStateM ε σ β} (hf : Emits keep log f plan s)
    (hg : ∀ a t, keep t = keep s → Emits keep log (g a) plan' t) :
    Emits keep log (f >>= g) (plan ++ plan') s := by
  unfold Emits at hf ⊢
  cases hfs : f s with
  | error e t =>
    rw [hfs] at hf
    rw [bind_error hfs]
    obtain ⟨hkeep, begun, hpre, hlog⟩ := hf
    exact ⟨hkeep, begun, hpre.trans (List.prefix_append _ _), hlog⟩
  | ok a t =>
    rw [hfs] at hf
    rw [bind_ok hfs]
    obtain ⟨hkeep, hlog⟩ := hf
    have hga := hg a t hkeep
    unfold Emits at hga
    cases hgt : g a t with
    | ok b u =>
      rw [hgt] at hga
      refine ⟨hga.1.trans hkeep, ?_⟩
      rw [hga.2, hlog, List.append_assoc]
    | error e u =>
      rw [hgt] at hga
      obtain ⟨hkeep', begun, hpre, hlog'⟩ := hga
      refine ⟨hkeep'.trans hkeep, plan ++ begun, ?_, ?_⟩
      · exact (List.prefix_append_right_inj plan).mpr hpre
      · rw [hlog', hlog, List.append_assoc]

theorem emits_forM {γ : Type} {l : List γ} {f : γ → EStateM ε σ PUnit} {plan : γ → List ρ}
    (h : ∀ e ∈ l, ∀ t, keep t = keep s → Emits keep log (f e) (plan e) t) :
    Emits keep log (l.forM f) (l.flatMap plan) s := by
  induction l generalizing s with
  | nil => exact emits_pure _
  | cons e l ih =>
    rw [List.flatMap_cons]
    refine (h e List.mem_cons_self s rfl).bind fun _ t ht => ih fun e' he' u hu => ?_
    exact h e' (List.mem_cons_of_mem _ he') u (hu.trans ht)

theorem Emits.ok {a : α} (h : Emits keep log f plan s) (hf : f s = .ok a t) :
    keep t = keep s ∧ log t = log s ++ plan := by
  unfold Emits at h
  rw [hf] at h
  exact h

theorem Emits.error {e : ε} (h : Emits keep log f plan s) (hf : f s = .error e t) :
    keep t = keep s ∧ ∃ begun, begun <+: plan ∧ log t = log s ++ begun := by
  unfold Emits at h
  rw [hf] at h
  exact h

end Emits

end Coroutine
