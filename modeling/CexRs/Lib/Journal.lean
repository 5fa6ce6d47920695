import Mathlib

/-!
# Journals

A journal is a list of signed postings to accounts. `net` sums the postings to the accounts that a
predicate selects, so that one account, everything a party holds in a currency, and a whole currency
are all the same notion.
-/

namespace Journal

variable {κ : Type}

structure Posting (κ : Type) where
  account : κ
  amount : Int
  deriving DecidableEq, Repr

section Net

variable (p q : κ → Prop) [DecidablePred p] [DecidablePred q]

def net (ps : List (Posting κ)) : Int :=
  (ps.map fun x => if p x.account then x.amount else 0).sum

@[simp] theorem net_nil : net p [] = 0 := rfl

@[simp] theorem net_cons (x : Posting κ) (ps : List (Posting κ)) :
    net p (x :: ps) = (if p x.account then x.amount else 0) + net p ps := by
  simp [net]

@[simp] theorem net_append (ps qs : List (Posting κ)) : net p (ps ++ qs) = net p ps + net p qs := by
  simp [net]

theorem net_flatMap {α : Type} (l : List α) (f : α → List (Posting κ)) :
    net p (l.flatMap f) = (l.map fun x => net p (f x)).sum := by
  induction l with
  | nil => rfl
  | cons x l ih => rw [List.flatMap_cons, net_append, ih, List.map_cons, List.sum_cons]

theorem net_congr {ps : List (Posting κ)} (h : ∀ x ∈ ps, p x.account ↔ q x.account) :
    net p ps = net q ps := by
  unfold net
  congr 1
  refine List.map_congr_left fun x hx => ?_
  exact if_congr (h x hx) rfl rfl

theorem net_eq_zero {ps : List (Posting κ)} (h : ∀ x ∈ ps, ¬ p x.account) : net p ps = 0 := by
  unfold net
  apply List.sum_eq_zero
  intro n hn
  obtain ⟨x, hx, rfl⟩ := List.mem_map.mp hn
  exact if_neg (h x hx)

theorem net_nonneg {ps : List (Posting κ)} (h : ∀ x ∈ ps, p x.account → 0 ≤ x.amount) :
    0 ≤ net p ps := by
  unfold net
  apply List.sum_nonneg
  intro n hn
  obtain ⟨x, hx, rfl⟩ := List.mem_map.mp hn
  split
  · next hp => exact h x hx hp
  · exact le_refl 0

/-- Two selections that cover a third without overlap share its postings out. -/
theorem net_eq_add {r : κ → Prop} [DecidablePred r] (hr : ∀ k, r k ↔ p k ∨ q k)
    (hpq : ∀ k, p k → ¬ q k) (ps : List (Posting κ)) : net r ps = net p ps + net q ps := by
  induction ps with
  | nil => rfl
  | cons x ps ih =>
      rw [net_cons, net_cons, net_cons, ih]
      have hsplit : (if r x.account then x.amount else 0)
          = (if p x.account then x.amount else 0) + (if q x.account then x.amount else 0) := by
        by_cases hp : p x.account
        · rw [if_pos ((hr _).mpr (Or.inl hp)), if_pos hp, if_neg (hpq _ hp), add_zero]
        · by_cases hq : q x.account
          · rw [if_pos ((hr _).mpr (Or.inr hq)), if_neg hp, if_pos hq, zero_add]
          · rw [if_neg fun h => ((hr _).mp h).elim hp hq, if_neg hp, if_neg hq, add_zero]
      rw [hsplit]
      omega

end Net

/-! ### Books that a journal is posted to -/

section Posts

variable {σ : Type} (balance : σ → κ → Nat)

/-- From one state to the next, every account changes by what the journal posts to it. -/
def Posts [DecidableEq κ] (s s' : σ) (ps : List (Posting κ)) : Prop :=
  ∀ k, (balance s' k : Int) = balance s k + net (· = k) ps

variable {balance} [DecidableEq κ] {s s' s'' : σ} {ps qs : List (Posting κ)}

theorem Posts.refl (s : σ) : Posts balance s s [] := by
  intro k
  simp

theorem Posts.trans (h : Posts balance s s' ps) (h' : Posts balance s' s'' qs) :
    Posts balance s s'' (ps ++ qs) := by
  intro k
  rw [h' k, h k, net_append]
  omega

end Posts

end Journal
