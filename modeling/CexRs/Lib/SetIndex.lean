import CexRs.Lib.OrderedMap

/-!
# Indices

Maps from keys to finite sets of values, read as relations: what stands under which key after an update.
A key without an entry and a key with an empty set read the same.
-/

namespace SetIndex

open Std OrderedMap

abbrev Index (κ α : Type) [Ord κ] := ExtTreeMap κ (Finset α)

variable {κ α : Type} [Ord κ] [TransOrd κ] [DecidableEq α]

def under (m : Index κ α) (k : κ) : Finset α := m[k]?.getD ∅

def add (m : Index κ α) (k : κ) (a : α) : Index κ α := m.insert k (insert a (under m k))

/-- Take a value away under one key, which stays. -/
def remove (m : Index κ α) (k : κ) (a : α) : Index κ α :=
  match m[k]? with
  | none => m
  | some xs => m.insert k (xs.erase a)

/-- Take a value away under one key, and the key with its last value. -/
def discard (m : Index κ α) (k : κ) (a : α) : Index κ α :=
  match m[k]? with
  | none => m
  | some xs => if xs.erase a = ∅ then m.erase k else m.insert k (xs.erase a)

/-- Take a value away under all keys, and the keys that have no other. -/
def purge (m : Index κ α) (a : α) : Index κ α :=
  (m.map fun _ xs => xs.erase a).filter fun _ xs => xs ≠ ∅

variable [LawfulEqOrd κ] {m : Index κ α} {k k' : κ} {a b : α}

omit [DecidableEq α] [LawfulEqOrd κ] in
@[simp] theorem under_empty : under (∅ : Index κ α) k = ∅ := by simp [under]

theorem mem_under_add : b ∈ under (add m k a) k' ↔ b ∈ under m k' ∨ k = k' ∧ b = a := by
  classical
  simp only [under, add, get_insert]
  by_cases hkey : k = k'
  · subst hkey
    simp [or_comm]
  · simp [hkey]

theorem mem_under_remove : b ∈ under (remove m k a) k' ↔ b ∈ under m k' ∧ ¬ (k = k' ∧ b = a) := by
  classical
  unfold remove
  cases hget : m[k]? with
  | none =>
      have hnot : b ∈ under m k' → k ≠ k' := by
        rintro hmem rfl
        simp [under, hget] at hmem
      tauto
  | some xs =>
      simp only [under, get_insert]
      by_cases hkey : k = k'
      · subst hkey
        simp [hget, and_comm]
      · simp [hkey]

theorem mem_under_discard :
    b ∈ under (discard m k a) k' ↔ b ∈ under m k' ∧ ¬ (k = k' ∧ b = a) := by
  classical
  rw [← mem_under_remove]
  unfold discard remove
  cases hget : m[k]? with
  | none => rfl
  | some xs =>
      by_cases hlast : xs.erase a = ∅
      · simp only [hlast, if_true, under, get_erase, get_insert]
        split
        · rfl
        · rfl
      · simp only [hlast, if_false]

theorem mem_under_purge : b ∈ under (purge m a) k ↔ b ∈ under m k ∧ b ≠ a := by
  simp only [under, purge, ExtTreeMap.getElem?_filter', ExtTreeMap.getElem?_map]
  cases m[k]? with
  | none => simp
  | some xs =>
      rw [Option.map_some, Option.filter_some, Option.getD_some, and_comm, ← Finset.mem_erase]
      by_cases hlast : xs.erase a = ∅
      · simp [hlast]
      · simp [hlast]

end SetIndex
