import Mathlib.Data.List.Basic

/-! # Transactional lines

On a line that was selected for transactions, publications are held back until
they are committed or rolled back; on a plain line they take effect at once, and
a commit or rollback kills the line. What takes effect is what was meant, if a
commit ends what was published since the last one, and nothing is published
inside a block on a plain line, or outside on a transactional one.
-/

namespace Journal

/-- What is sent on a line. The receiver does not know whether a publication was made in a block,
nor what the block of a commit has published. -/
inductive Frame (α : Type*) where
  | select
  | publish (inside : Bool) (item : α)
  | commit (body : List α)
  | rollback
  deriving DecidableEq, Repr

/-- How the receiver takes the frames of a line. -/
inductive Mode (α : Type*) where
  | plain
  | transactional (held : List α)
  | dead
  deriving DecidableEq, Repr

/-- A line, with the frames that are on their way. -/
structure Line (α : Type*) where
  mode : Mode α
  wire : List (Frame α)
  deriving DecidableEq, Repr

variable {α : Type*}

namespace Mode

def next : Mode α → Frame α → Mode α
  | .dead, _ => .dead
  | .plain, .select => .transactional []
  | .plain, .publish _ _ => .plain
  | .plain, .commit _ | .plain, .rollback => .dead
  | .transactional held, .select => .transactional held
  | .transactional held, .publish _ x => .transactional (held ++ [x])
  | .transactional _, .commit _ | .transactional _, .rollback => .transactional []

def applied : Mode α → Frame α → List α
  | .plain, .publish _ x => [x]
  | .transactional held, .commit _ => held
  | _, _ => []

/-- What was to take effect: a single publication, or a block that was committed. -/
def meant : Mode α → Frame α → List (List α)
  | .plain, .publish false x => [[x]]
  | .transactional _, .commit body => [body]
  | _, _ => []

/-- The frame does what it was meant to do. -/
def Fits : Mode α → Frame α → Prop
  | .plain, .publish inside _ => inside = false
  | .transactional _, .publish inside _ => inside = true
  | .transactional held, .commit body => held = body
  | _, _ => True

theorem applied_eq {m : Mode α} {f : Frame α} (h : m.Fits f) :
    m.applied f = (m.meant f).flatten := by
  cases m with
  | plain =>
    cases f with
    | publish inside x =>
      obtain rfl : inside = false := h
      rfl
    | _ => rfl
  | transactional held =>
    cases f with
    | commit body => exact (h : held = body).trans (List.append_nil body).symm
    | _ => rfl
  | dead => rfl

/-- All the frames do what they were meant to do. -/
def Fitting : Mode α → List (Frame α) → Prop
  | _, [] => True
  | m, f :: fs => m.Fits f ∧ Fitting (m.next f) fs

theorem fitting_append {m : Mode α} {fs gs : List (Frame α)} :
    m.Fitting (fs ++ gs) ↔ m.Fitting fs ∧ (fs.foldl next m).Fitting gs := by
  induction fs generalizing m with
  | nil => simp [Fitting]
  | cons f fs ih => simp only [List.cons_append, Fitting, ih, List.foldl_cons, and_assoc]

end Mode

namespace Line

variable (l : Line α)

def fresh : Line α := ⟨.plain, []⟩

def send (f : Frame α) : Line α := { l with wire := l.wire ++ [f] }

def last : Mode α := l.wire.foldl Mode.next l.mode

def Fitting : Prop := l.mode.Fitting l.wire

/-- All that was sent is received, and the line lives. -/
def Settled : Prop := l.wire = [] ∧ l.mode ≠ .dead

instance : Decidable l.Settled :=
  match l with
  | ⟨.dead, _⟩ => .isFalse fun h => h.2 rfl
  | ⟨_, _ :: _⟩ => .isFalse fun h => (by cases h.1)
  | ⟨.plain, []⟩ | ⟨.transactional _, []⟩ => .isTrue ⟨rfl, nofun⟩

/-- The commit of a body is the last frame on its way, or was not accepted. -/
def Commits (body : List α) : Prop :=
  (∃ fs, l.wire = fs ++ [.commit body]) ∨ l.mode = .dead

variable {l} {f : Frame α} {fs : List (Frame α)}

@[simp] theorem last_send : (l.send f).last = l.last.next f := by
  simp [last, send]

@[simp] theorem fitting_send : (l.send f).Fitting ↔ l.Fitting ∧ l.last.Fits f := by
  simp [Fitting, send, Mode.fitting_append, Mode.Fitting, last]

theorem fitting_receive (h : l.Fitting) (hw : l.wire = f :: fs) :
    l.mode.Fits f ∧ (⟨l.mode.next f, fs⟩ : Line α).Fitting := by
  rw [Fitting, hw] at h
  exact h

theorem last_receive (hw : l.wire = f :: fs) :
    (⟨l.mode.next f, fs⟩ : Line α).last = l.last := by
  rw [last, last, hw, List.foldl_cons]

theorem commits_receive {body : List α} (h : l.Commits body) (hw : l.wire = f :: fs) :
    (⟨l.mode.next f, fs⟩ : Line α).Commits body ∨ body ∈ l.mode.meant f := by
  rcases h with ⟨gs, hgs⟩ | hd
  · rw [hw] at hgs
    cases gs with
    | nil =>
      obtain ⟨rfl, rfl⟩ := List.cons.inj hgs
      cases hm : l.mode with
      | transactional held => exact Or.inr (List.mem_singleton_self _)
      | plain | dead => exact Or.inl (Or.inr rfl)
    | cons g gs =>
      obtain ⟨rfl, rfl⟩ := List.cons.inj hgs
      exact Or.inl (Or.inl ⟨gs, rfl⟩)
  · exact Or.inl (Or.inr (by simp only [hd, Mode.next]))

end Line

end Journal
