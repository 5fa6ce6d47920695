import Mathlib

/-!
# Loops without a bound

A loop is a function from states to states that may fail, and that stays where it is once the loop is
over. What its passes keep holds wherever they lead; if each of them also brings a number down, the loop
is over after at most as many passes.
-/

namespace Loop

variable {σ ε : Type} (pass : σ → Except ε σ)

inductive Reaches : Nat → σ → σ → Prop
  | refl (s : σ) : Reaches 0 s s
  | head {n : Nat} {s s' t : σ} (hpass : pass s = .ok s') (hrest : Reaches n s' t) : Reaches (n + 1) s t

variable {pass} {n n' : Nat} {s s' t t' : σ}

theorem Reaches.trans (h : Reaches pass n s s') (h' : Reaches pass n' s' t) :
    Reaches pass (n + n') s t := by
  induction h with
  | refl s => rwa [Nat.zero_add]
  | head hpass _ ih =>
      rw [Nat.add_right_comm]
      exact .head hpass (ih h')

theorem Reaches.invariant {Inv : σ → Prop} (h : Reaches pass n s t)
    (hkeep : ∀ s s', Inv s → pass s = .ok s' → Inv s') (hs : Inv s) : Inv t := by
  induction h with
  | refl s => exact hs
  | head hpass _ ih => exact ih (hkeep _ _ hs hpass)

/-- A loop that is over stays where it is. -/
theorem Reaches.eq_of_over (h : Reaches pass n s t) (hover : pass s = .ok s) : t = s := by
  induction h with
  | refl s => rfl
  | head hpass _ ih =>
      rw [hover] at hpass
      cases hpass
      exact ih hover

/-- A loop comes to one end only. -/
theorem Reaches.unique (h : Reaches pass n s t) (hover : pass t = .ok t) (h' : Reaches pass n' s t')
    (hover' : pass t' = .ok t') : t' = t := by
  induction h generalizing n' with
  | refl s => exact h'.eq_of_over hover
  | head hpass hrest ih =>
      cases h' with
      | refl _ =>
          rw [hover'] at hpass
          cases hpass
          exact (hrest.eq_of_over hover').symm
      | head hpass' hrest' =>
          rw [hpass] at hpass'
          cases hpass'
          exact ih hover hrest'

theorem exists_reaches_of_variant {Inv Over : σ → Prop} (variant : σ → Nat)
    (hpass : ∀ s, Inv s → ¬ Over s → ∃ s', pass s = .ok s' ∧ Inv s' ∧ variant s' < variant s)
    (hs : Inv s) : ∃ n ≤ variant s, ∃ t, Reaches pass n s t ∧ Over t ∧ Inv t := by
  induction hk : variant s using Nat.strong_induction_on generalizing s with
  | _ k ih =>
      by_cases hover : Over s
      · exact ⟨0, Nat.zero_le _, s, .refl s, hover, hs⟩
      · obtain ⟨s', hstep, hs', hlt⟩ := hpass s hs hover
        obtain ⟨n, hle, t, hreach, hend⟩ := ih (variant s') (hk ▸ hlt) hs' rfl
        exact ⟨n + 1, by omega, t, .head hstep hreach, hend⟩

end Loop
