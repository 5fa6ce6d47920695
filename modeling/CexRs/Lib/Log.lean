import Mathlib

/-!
# Append-only logs

A log is a list of entries whose ids increase strictly. Readers keep the id of the last entry they have
seen and ask for what stands after it, so that a position in the log is an id and what was read is a
first part of the log.
-/

namespace Log

variable {ι α : Type}

/-- The position of a reader that started at `k` and has read `l`. -/
def lastId (k : ι) (l : List (ι × α)) : ι := (l.getLast?.map Prod.fst).getD k

section Position

variable {k : ι} {l l' : List (ι × α)}

@[simp] theorem lastId_nil : lastId k ([] : List (ι × α)) = k := rfl

@[simp] theorem lastId_concat (e : ι × α) : lastId k (l ++ [e]) = e.1 := by
  simp [lastId]

theorem lastId_append : lastId k (l ++ l') = lastId (lastId k l) l' := by
  cases hlast : l'.getLast? with
  | none =>
      rw [List.getLast?_eq_none_iff] at hlast
      simp [hlast]
  | some e => simp [lastId, List.getLast?_append, hlast]

theorem lastId_cons (e : ι × α) : lastId k (e :: l) = lastId e.1 l :=
  lastId_append (l := [e])

end Position

variable [LinearOrder ι]

structure Ordered (origin : ι) (l : List (ι × α)) : Prop where
  increasing : l.Pairwise fun a b => a.1 < b.1
  later : ∀ e ∈ l, origin < e.1

/-- The entries after a position, and those up to it. -/
def since (k : ι) (l : List (ι × α)) : List (ι × α) := l.filter fun e => k < e.1

def upTo (k : ι) (l : List (ι × α)) : List (ι × α) := l.filter fun e => e.1 ≤ k

variable {origin : ι} {l l' : List (ι × α)}

theorem Ordered.left (h : Ordered origin (l ++ l')) : Ordered origin l :=
  ⟨(List.pairwise_append.mp h.increasing).1, fun e he => h.later e (List.mem_append_left _ he)⟩

/-- Everything that was read stands at or before the reader's position. -/
theorem Ordered.le_lastId (h : Ordered origin l) {e : ι × α} (he : e ∈ l) :
    e.1 ≤ lastId origin l := by
  obtain ⟨front, last, rfl⟩ := List.eq_nil_or_concat l |>.resolve_left (List.ne_nil_of_mem he)
  rw [List.concat_eq_append, lastId_concat]
  rcases List.mem_append.mp (List.concat_eq_append ▸ he) with hfront | hlast
  · have hpair := (List.pairwise_append.mp (List.concat_eq_append ▸ h.increasing)).2.2
    exact le_of_lt (hpair e hfront last (List.mem_singleton_self last))
  · rw [List.mem_singleton.mp hlast]

/-- Everything that is still to be read comes after the reader's position. -/
theorem Ordered.lastId_lt (h : Ordered origin (l ++ l')) {e : ι × α} (he : e ∈ l') :
    lastId origin l < e.1 := by
  rcases List.eq_nil_or_concat l with rfl | ⟨front, last, rfl⟩
  · exact h.later e (List.mem_append_right _ he)
  · rw [List.concat_eq_append, lastId_concat]
    have hpair := (List.pairwise_append.mp h.increasing).2.2
    exact hpair last (by simp) e he

/-- A reader that has read a first part of the log is given the rest. -/
theorem since_lastId (h : Ordered origin (l ++ l')) : since (lastId origin l) (l ++ l') = l' := by
  rw [since, List.filter_append]
  have hread : l.filter (fun e => lastId origin l < e.1) = [] := by
    apply List.filter_eq_nil_iff.mpr
    intro e he
    simpa using h.left.le_lastId he
  have hrest : l'.filter (fun e => lastId origin l < e.1) = l' := by
    apply List.filter_eq_self.mpr
    intro e he
    simpa using h.lastId_lt he
  rw [hread, hrest, List.nil_append]

theorem upTo_lastId (h : Ordered origin (l ++ l')) : upTo (lastId origin l) (l ++ l') = l := by
  rw [upTo, List.filter_append]
  have hread : l.filter (fun e => e.1 ≤ lastId origin l) = l := by
    apply List.filter_eq_self.mpr
    intro e he
    simpa using h.left.le_lastId he
  have hrest : l'.filter (fun e => e.1 ≤ lastId origin l) = [] := by
    apply List.filter_eq_nil_iff.mpr
    intro e he
    simpa using h.lastId_lt he
  rw [hread, hrest, List.append_nil]

/-- A position tells what was read. -/
theorem eq_of_lastId_eq {front front' : List (ι × α)} (h : Ordered origin (front ++ l))
    (hsame : front ++ l = front' ++ l') (hlast : lastId origin front = lastId origin front') :
    front = front' ∧ l = l' := by
  have hfront : front = front' := by
    rw [← upTo_lastId h, hlast, hsame, upTo_lastId (hsame ▸ h)]
  subst hfront
  exact ⟨rfl, List.append_cancel_left hsame⟩

theorem Ordered.concat (h : Ordered origin l) {e : ι × α} (he : lastId origin l < e.1) :
    Ordered origin (l ++ [e]) := by
  have horigin : origin ≤ lastId origin l := by
    rcases List.eq_nil_or_concat l with rfl | ⟨front, last, rfl⟩
    · exact le_refl origin
    · exact le_of_lt ((h.later last (by simp)).trans_le (h.le_lastId (by simp)))
  refine ⟨?_, ?_⟩
  · refine List.pairwise_append.mpr ⟨h.increasing, List.pairwise_singleton _ _, ?_⟩
    intro a ha b hb
    rw [List.mem_singleton.mp hb]
    exact (h.le_lastId ha).trans_lt he
  · intro a ha
    rcases List.mem_append.mp ha with ha | ha
    · exact h.later a ha
    · rw [List.mem_singleton.mp ha]
      exact horigin.trans_lt he

end Log
