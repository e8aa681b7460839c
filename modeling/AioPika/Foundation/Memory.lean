import Mathlib.Data.Set.Insert
import Mathlib.Logic.Function.Basic

/-! # Memories of objects

Objects live at addresses that are handed out one after the other. A program that
writes only at its own addresses and at new ones leaves everything else as it is.
-/

/-- The cells below `next` are in use. -/
structure Memory (τ : Type*) where
  cells : ℕ → τ
  next : ℕ

namespace Memory

variable {τ : Type*}

def write (m : Memory τ) (a : ℕ) (x : τ) : Memory τ :=
  { m with cells := Function.update m.cells a x }

def alloc (m : Memory τ) (x : τ) : Memory τ := ⟨Function.update m.cells m.next x, m.next + 1⟩

variable {m m' m'' : Memory τ} {a b : ℕ} {x : τ} {A B : Set ℕ}

@[simp] theorem write_self : (m.write a x).cells a = x := Function.update_self ..

theorem write_ne (h : b ≠ a) : (m.write a x).cells b = m.cells b := Function.update_of_ne h ..

@[simp] theorem alloc_self : (m.alloc x).cells m.next = x := Function.update_self ..

theorem alloc_ne (h : b ≠ m.next) : (m.alloc x).cells b = m.cells b := Function.update_of_ne h ..

theorem alloc_alloc {y : τ} : ((m.alloc x).alloc y).cells m.next = x := by
  rw [alloc_ne (Nat.lt_succ_self m.next).ne, alloc_self]

/-- The addresses are in use, and the objects there are the same in both memories. -/
structure Agree (A : Set ℕ) (m m' : Memory τ) : Prop where
  below : ∀ a ∈ A, a < m'.next
  same : ∀ a ∈ A, m'.cells a = m.cells a

theorem Agree.trans (h : Agree A m m') (h' : Agree A m' m'') : Agree A m m'' where
  below := h'.below
  same a ha := (h'.same a ha).trans (h.same a ha)

theorem Agree.subset (h : Agree B m m') (hA : A ⊆ B) : Agree A m m' where
  below a ha := h.below a (hA ha)
  same a ha := h.same a (hA ha)

theorem Agree.write (h : Agree A m m') (ha : a ∉ A) : Agree A m (m'.write a x) where
  below := h.below
  same b hb := by
    have hne : b ≠ a := by
      rintro rfl
      exact ha hb
    rw [write_ne hne]
    exact h.same b hb

theorem Agree.alloc (h : Agree A m m') : Agree A m (m'.alloc x) where
  below a ha := Nat.lt_succ_of_lt (h.below a ha)
  same b hb := by
    rw [alloc_ne (h.below b hb).ne]
    exact h.same b hb

theorem Agree.next_notMem (h : Agree A m m') : m'.next ∉ A :=
  fun hm => absurd (h.below _ hm) (Nat.lt_irrefl _)

end Memory
