import Mathlib

/-!
# Ordered finite maps

What the rest of the development needs of `Std.ExtTreeMap` beyond the library's own lemmas: how the
sorted list of entries changes under an update, and sums of a weight over all entries.
-/

namespace OrderedMap

open Std

variable {κ β : Type} [Ord κ] [TransOrd κ] [LawfulEqOrd κ]

section Entries

variable {m : ExtTreeMap κ β} {k : κ} {v : β}

theorem get_insert [DecidableEq κ] (m : ExtTreeMap κ β) (k a : κ) (v : β) :
    (m.insert k v)[a]? = if k = a then some v else m[a]? := by
  rw [ExtTreeMap.getElem?_insert]
  exact if_congr (LawfulEqCmp.compare_eq_iff_eq) rfl rfl

theorem get_erase [DecidableEq κ] (m : ExtTreeMap κ β) (k a : κ) :
    (m.erase k)[a]? = if k = a then none else m[a]? := by
  rw [ExtTreeMap.getElem?_erase]
  exact if_congr (LawfulEqCmp.compare_eq_iff_eq) rfl rfl

omit [LawfulEqOrd κ] in
theorem get_insert_self (m : ExtTreeMap κ β) (k : κ) (v : β) : (m.insert k v)[k]? = some v :=
  ExtTreeMap.getElem?_insert_self

theorem get_insert_of_ne {a : κ} (h : k ≠ a) : (m.insert k v)[a]? = m[a]? := by
  classical
  rw [get_insert, if_neg h]

omit [LawfulEqOrd κ] in
theorem get_erase_self (m : ExtTreeMap κ β) (k : κ) : (m.erase k)[k]? = none :=
  ExtTreeMap.getElem?_erase_self

theorem get_erase_of_ne {a : κ} (h : k ≠ a) : (m.erase k)[a]? = m[a]? := by
  classical
  rw [get_erase, if_neg h]

theorem erase_of_get_none (h : m[k]? = none) : m.erase k = m := by
  classical
  refine ExtTreeMap.ext_getElem? fun a => ?_
  rw [get_erase]
  split
  · next heq => rw [← heq, h]
  · rfl

omit [LawfulEqOrd κ] in
theorem toList_pairwise (m : ExtTreeMap κ β) :
    m.toList.Pairwise fun a b => compare a.1 b.1 = .lt :=
  ExtTreeMap.ordered_keys_toList

/-- A strictly sorted list with the entries of a map is its list of entries. -/
theorem toList_eq_of_sorted {l : List (κ × β)}
    (hsorted : l.Pairwise fun a b => compare a.1 b.1 = .lt)
    (hmem : ∀ k v, (k, v) ∈ l ↔ m[k]? = some v) : m.toList = l := by
  have hirrefl : ∀ {x y : κ × β}, compare x.1 y.1 = .lt → x ≠ y := by
    rintro x y hlt rfl
    simp at hlt
  refine List.Perm.eq_of_pairwise ?_ (toList_pairwise m) hsorted ?_
  · intro a b _ _ hab hba
    exact absurd hba (OrientedCmp.not_lt_of_lt hab)
  · refine (List.perm_ext_iff_of_nodup (ExtTreeMap.ordered_keys_toList.imp hirrefl)
      (hsorted.imp hirrefl)).mpr fun e => ?_
    rw [ExtTreeMap.mem_toList_iff_getElem?_eq_some, hmem]

theorem mem_toList {e : κ × β} : e ∈ m.toList ↔ m[e.1]? = some e.2 :=
  ExtTreeMap.mem_toList_iff_getElem?_eq_some

@[simp] theorem toList_empty : (∅ : ExtTreeMap κ β).toList = [] := by
  apply List.eq_nil_iff_forall_not_mem.mpr
  intro e he
  simp [mem_toList] at he

end Entries

/-! ### An entry of the list, removed or replaced -/

section Split

variable {m : ExtTreeMap κ β} {k : κ} {v w : β} {front back : List (κ × β)}

theorem key_ne_of_split (h : m.toList = front ++ (k, v) :: back) {e : κ × β}
    (he : e ∈ front ++ back) : k ≠ e.1 := by
  have hsorted := toList_pairwise m
  rw [h, List.pairwise_append, List.pairwise_cons] at hsorted
  obtain ⟨_, ⟨hback, _⟩, hfront⟩ := hsorted
  rintro rfl
  rcases List.mem_append.mp he with he | he
  · have hlt := hfront e he (e.1, v) (List.mem_cons_self ..)
    simp at hlt
  · have hlt := hback e he
    simp at hlt

theorem toList_erase_of_split (h : m.toList = front ++ (k, v) :: back) :
    (m.erase k).toList = front ++ back := by
  classical
  have hsorted := toList_pairwise m
  rw [h] at hsorted
  refine toList_eq_of_sorted (hsorted.sublist
    ((List.Sublist.refl front).append (List.sublist_cons_self _ _))) fun a b => ?_
  rw [get_erase]
  constructor
  · intro hmem
    rw [if_neg (key_ne_of_split h hmem)]
    have hin : (a, b) ∈ m.toList := by
      rw [h]
      simp only [List.mem_append, List.mem_cons] at hmem ⊢
      tauto
    exact mem_toList.mp hin
  · intro hget
    split at hget
    · cases hget
    · next hne =>
        have hmem := mem_toList.mpr (show m[(a, b).1]? = some (a, b).2 from hget)
        rw [h] at hmem
        simp only [List.mem_append, List.mem_cons, Prod.mk.injEq] at hmem ⊢
        rcases hmem with hmem | ⟨heq, _⟩ | hmem
        · exact Or.inl hmem
        · exact absurd heq.symm hne
        · exact Or.inr hmem

theorem toList_insert_of_split (h : m.toList = front ++ (k, v) :: back) :
    (m.insert k w).toList = front ++ (k, w) :: back := by
  classical
  have hsorted := toList_pairwise m
  rw [h, List.pairwise_append, List.pairwise_cons] at hsorted
  obtain ⟨hf, ⟨hkb, hb⟩, hfb⟩ := hsorted
  refine toList_eq_of_sorted ?_ fun a b => ?_
  · rw [List.pairwise_append, List.pairwise_cons]
    refine ⟨hf, ⟨hkb, hb⟩, fun x hx y hy => ?_⟩
    rcases List.mem_cons.mp hy with rfl | hy
    · exact hfb x hx (k, v) (List.mem_cons_self ..)
    · exact hfb x hx y (List.mem_cons_of_mem _ hy)
  · have hrest : (a, b) ∈ front ++ back ↔ k ≠ a ∧ m[a]? = some b := by
      rw [← toList_erase_of_split h, mem_toList, get_erase]
      by_cases heq : k = a <;> simp [heq]
    rw [get_insert]
    by_cases heq : k = a
    · subst heq
      simp only [List.mem_append, List.mem_cons, Prod.mk.injEq, true_and] at hrest ⊢
      simp only [ne_eq, not_true_eq_false, false_and, iff_false, not_or] at hrest
      simp [hrest.1, hrest.2, eq_comm]
    · rw [if_neg heq]
      simp only [List.mem_append, List.mem_cons, Prod.mk.injEq] at hrest ⊢
      constructor
      · rintro (hmem | ⟨rfl, _⟩ | hmem)
        · exact (hrest.mp (Or.inl hmem)).2
        · exact absurd rfl heq
        · exact (hrest.mp (Or.inr hmem)).2
      · intro hget
        rcases hrest.mpr ⟨heq, hget⟩ with hmem | hmem
        · exact Or.inl hmem
        · exact Or.inr (Or.inr hmem)

/-- Every entry splits the list. -/
theorem exists_split (h : m[k]? = some v) :
    ∃ front back, m.toList = front ++ (k, v) :: back :=
  List.append_of_mem (mem_toList.mpr h)

theorem size_erase_lt (h : m[k]? = some v) : (m.erase k).size < m.size := by
  obtain ⟨front, back, hsplit⟩ := exists_split h
  rw [← ExtTreeMap.length_toList, ← ExtTreeMap.length_toList, toList_erase_of_split hsplit, hsplit]
  simp

end Split

/-! ### Totals -/

section Total

variable {m : ExtTreeMap κ β} {k : κ} {v w : β} (f : κ → β → Nat)

def total (f : κ → β → Nat) (m : ExtTreeMap κ β) : Nat :=
  (m.toList.map fun e => f e.1 e.2).sum

omit [LawfulEqOrd κ] in
@[simp] theorem total_empty : total f (∅ : ExtTreeMap κ β) = 0 := by
  have hnil : (∅ : ExtTreeMap κ β).toList = [] := ExtTreeMap.toList_eq_nil_iff.mpr rfl
  simp [total, hnil]

theorem total_of_get (h : m[k]? = some v) : total f m = f k v + total f (m.erase k) := by
  obtain ⟨front, back, hsplit⟩ := exists_split h
  simp only [total, hsplit, toList_erase_of_split hsplit, List.map_append, List.map_cons,
    List.sum_append, List.sum_cons]
  omega

theorem erase_insert (m : ExtTreeMap κ β) (k : κ) (v : β) : (m.insert k v).erase k = m.erase k := by
  classical
  refine ExtTreeMap.ext_getElem? fun a => ?_
  rw [get_erase, get_erase, get_insert]
  split <;> rfl

theorem erase_insert_of_none (h : m[k]? = none) : (m.insert k v).erase k = m := by
  rw [erase_insert, erase_of_get_none h]

theorem insert_insert (m : ExtTreeMap κ β) (k : κ) (v w : β) :
    (m.insert k v).insert k w = m.insert k w := by
  classical
  refine ExtTreeMap.ext_getElem? fun a => ?_
  rw [get_insert, get_insert, get_insert]
  split <;> rfl

theorem insert_of_get (h : m[k]? = some v) : m.insert k v = m := by
  classical
  refine ExtTreeMap.ext_getElem? fun a => ?_
  rw [get_insert]
  split
  · next heq => rw [← heq, h]
  · rfl

theorem total_insert (m : ExtTreeMap κ β) (k : κ) (v : β) :
    total f (m.insert k v) = f k v + total f (m.erase k) := by
  rw [total_of_get f (get_insert_self m k v), erase_insert]

/-- Replacing the entry at a key changes the total by the difference of the two weights. -/
theorem total_insert_of_get (h : m[k]? = some v) :
    total f (m.insert k w) + f k v = total f m + f k w := by
  rw [total_insert, total_of_get f h]
  omega

theorem total_insert_of_none (h : m[k]? = none) :
    total f (m.insert k w) = total f m + f k w := by
  rw [total_insert, erase_of_get_none h]
  omega

/-- An entry's weight is part of the total. -/
theorem le_total (h : m[k]? = some v) : f k v ≤ total f m := by
  rw [total_of_get f h]
  omega

end Total

end OrderedMap
