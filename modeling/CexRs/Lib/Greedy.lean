import Mathlib

/-!
# Greedy allocation

A quantity is allocated to a list of takers in order, each up to its capacity, until nothing is left.
`fills` lists what each one gets, `left` is the list afterwards: those that were used up are gone, and
the last one served keeps its place with its capacity reduced by what it got.
-/

namespace Greedy

variable {α : Type} (cap : α → Nat) (shrink : α → Nat → α)

def fills : Nat → List α → List (α × Nat)
  | _, [] => []
  | q, x :: xs => if q = 0 then [] else (x, min q (cap x)) :: fills (q - min q (cap x)) xs

def left : Nat → List α → List α
  | _, [] => []
  | q, x :: xs =>
      if q = 0 then x :: xs
      else if cap x ≤ q then left (q - cap x) xs
      else shrink x q :: xs

/-- What is left of the quantity once every capacity is used up. -/
def unfilled (q : Nat) (l : List α) : Nat := q - (l.map cap).sum

@[simp] theorem fills_zero (l : List α) : fills cap 0 l = [] := by
  cases l <;> simp [fills]

@[simp] theorem left_zero (l : List α) : left cap shrink 0 l = l := by
  cases l <;> simp [left]

theorem fills_cons {q : Nat} (h : 0 < q) (x : α) (xs : List α) :
    fills cap q (x :: xs) = (x, min q (cap x)) :: fills cap (q - min q (cap x)) xs := by
  rw [fills, if_neg (by omega)]

theorem left_cons_of_le {q : Nat} {x : α} (h : 0 < q) (hle : cap x ≤ q) (xs : List α) :
    left cap shrink q (x :: xs) = left cap shrink (q - cap x) xs := by
  rw [left, if_neg (by omega), if_pos hle]

theorem left_cons_of_lt {q : Nat} {x : α} (h : 0 < q) (hlt : q < cap x) (xs : List α) :
    left cap shrink q (x :: xs) = shrink x q :: xs := by
  rw [left, if_neg (by omega), if_neg (by omega)]

/-- Everything that can be allocated is. -/
theorem sum_fills (q : Nat) (l : List α) :
    ((fills cap q l).map Prod.snd).sum = min q (l.map cap).sum := by
  induction l generalizing q with
  | nil => simp [fills]
  | cons x xs ih =>
      by_cases hq : q = 0
      · subst hq
        simp
      · rw [fills_cons cap (by omega), List.map_cons, List.sum_cons, ih, List.map_cons,
          List.sum_cons]
        omega

theorem sum_fills_add_unfilled (q : Nat) (l : List α) :
    ((fills cap q l).map Prod.snd).sum + unfilled cap q l = q := by
  rw [sum_fills, unfilled]
  omega

/-- Only the last one served can be served in part: those before it are used up, and it gets what they
leave. -/
theorem mem_fills_partial {q : Nat} {l : List α} {x : α} {n : Nat} (h : (x, n) ∈ fills cap q l)
    (hlt : n < cap x) :
    ∃ front back, l = front ++ x :: back ∧ (front.map cap).sum < q ∧
      q < (front.map cap).sum + cap x ∧ n = q - (front.map cap).sum := by
  induction l generalizing q with
  | nil => simp [fills] at h
  | cons y ys ih =>
      by_cases hq : q = 0
      · subst hq
        simp at h
      · rw [fills_cons cap (by omega), List.mem_cons, Prod.mk.injEq] at h
        rcases h with ⟨rfl, rfl⟩ | h
        · exact ⟨[], ys, rfl, by simp; omega, by simp; omega, by simp; omega⟩
        · obtain ⟨front, back, rfl, hfront, hend, hn⟩ := ih h
          refine ⟨y :: front, back, rfl, ?_, ?_, ?_⟩
          all_goals
            rw [List.map_cons, List.sum_cons]
            omega

end Greedy
