import Mathlib

/-!
# What holds throughout a fold

A fold takes its start to one state after another. What holds in all of them, and not only in the last,
holds wherever the fold is broken off. An element may be asked to meet a condition in the state that it is
taken in; then an invariant has to be kept by such elements only.
-/

namespace Fold

variable {σ α : Type} (step : σ → α → σ) (inv : σ → Prop) (cond : σ → α → Prop)

/-- The property holds at the start, and again after each element of the list. -/
def Throughout (s : σ) : List α → Prop
  | [] => inv s
  | x :: l => inv s ∧ Throughout (step s x) l

/-- Each element of the list meets the condition in the state that the fold takes it in. -/
def EachMeets : σ → List α → Prop
  | _, [] => True
  | s, x :: l => cond s x ∧ EachMeets (step s x) l

instance decidableEachMeets [∀ s x, Decidable (cond s x)] :
    (s : σ) → (l : List α) → Decidable (EachMeets step cond s l)
  | _, [] => inferInstanceAs (Decidable True)
  | s, x :: l =>
      have := decidableEachMeets (step s x) l
      inferInstanceAs (Decidable (cond s x ∧ EachMeets step cond (step s x) l))

variable {step inv cond} {s : σ} {l l' : List α}

theorem Throughout.start (h : Throughout step inv s l) : inv s := by
  cases l with
  | nil => exact h
  | cons x l => exact h.1

theorem throughout_append : Throughout step inv s (l ++ l') ↔
    Throughout step inv s l ∧ Throughout step inv (l.foldl step s) l' := by
  induction l generalizing s with
  | nil => exact ⟨fun h => ⟨h.start, h⟩, fun h => h.2⟩
  | cons x l ih =>
      rw [List.cons_append, Throughout, Throughout, ih, List.foldl_cons, and_assoc]

/-- What every element keeps, the fold keeps throughout. -/
theorem throughout_of_keeps (hs : inv s) (hstep : ∀ s, inv s → ∀ x ∈ l, inv (step s x)) :
    Throughout step inv s l := by
  induction l generalizing s with
  | nil => exact hs
  | cons x l ih =>
      exact ⟨hs, ih (hstep s hs x (List.mem_cons_self ..))
        fun s hs y hy => hstep s hs y (List.mem_cons_of_mem _ hy)⟩

/-- What every element that meets the condition keeps, the fold keeps. -/
theorem EachMeets.foldl (h : EachMeets step cond s l) (hs : inv s)
    (hstep : ∀ s, inv s → ∀ x ∈ l, cond s x → inv (step s x)) : inv (l.foldl step s) := by
  induction l generalizing s with
  | nil => exact hs
  | cons x l ih =>
      exact ih h.2 (hstep s hs x (List.mem_cons_self ..) h.1)
        fun s hs y hy => hstep s hs y (List.mem_cons_of_mem _ hy)

theorem Throughout.at_front (h : Throughout step inv s l) (hl : l' <+: l) : inv (l'.foldl step s) := by
  obtain ⟨rest, rfl⟩ := hl
  exact (throughout_append.mp h).2.start

end Fold
