import Mathlib

/-!
# Token buckets

A bucket fills at a constant rate up to its capacity, and a request draws one token from it if there is
one. As long as no request is older than the one before it, what the bucket grants in an interval is
bounded by its capacity and what flows in over the interval.
-/

namespace TokenBucket

structure Bucket (K : Type) where
  tokens : K
  lastUpdate : K
  deriving DecidableEq, Repr

variable {K : Type} [LinearOrder K]

/-! ### What was granted in an interval -/

section Granted

variable {lo hi now : K} {granted : List K}

def grantedIn (lo hi : K) (granted : List K) : Nat := granted.countP fun t => lo ≤ t ∧ t ≤ hi

theorem grantedIn_concat : grantedIn lo hi (granted ++ [now])
    = grantedIn lo hi granted + if lo ≤ now ∧ now ≤ hi then 1 else 0 := by
  simp [grantedIn, List.countP_append, List.countP_singleton]

theorem grantedIn_of_past (hpast : ∀ t ∈ granted, t ≤ now) (hle : now ≤ hi) :
    grantedIn lo hi granted = grantedIn lo now granted := by
  refine List.countP_congr fun t ht => ?_
  have hnow := hpast t ht
  simp [hnow, hnow.trans hle]

theorem grantedIn_eq_zero (hpast : ∀ t ∈ granted, t ≤ now) (hlt : now < lo) :
    grantedIn lo hi granted = 0 := by
  rw [grantedIn, List.countP_eq_zero]
  intro t ht
  simp [(hpast t ht).trans_lt hlt]

end Granted

/-! ### The bound -/

variable [Field K]

/-- What a request finds. Nothing has flown in for one that is older than the last. -/
def level (capacity rate : K) (b : Bucket K) (now : K) : K :=
  min (b.tokens + max (now - b.lastUpdate) 0 * rate) capacity

/-- A bucket, and the times at which it has granted a request: since any instant it has given out no
more than it could hold then and what has flown in after that. -/
structure Paced (capacity rate : K) (b : Bucket K) (granted : List K) : Prop where
  nonneg : 0 ≤ b.tokens
  past : ∀ t ∈ granted, t ≤ b.lastUpdate
  spent : ∀ lo ≤ b.lastUpdate,
    grantedIn lo b.lastUpdate granted + b.tokens ≤ capacity + rate * (b.lastUpdate - lo)
  window : ∀ lo hi, lo ≤ hi → grantedIn lo hi granted ≤ capacity + rate * (hi - lo)

section Bound

variable [IsStrictOrderedRing K] {capacity rate : K} {b : Bucket K} {granted : List K} {now : K}

theorem paced_full (hcapacity : 0 ≤ capacity) (hrate : 0 ≤ rate) (now : K) :
    Paced capacity rate ⟨capacity, now⟩ [] where
  nonneg := hcapacity
  past := by simp
  spent lo hle := by
    have hflow := mul_nonneg hrate (sub_nonneg.mpr hle)
    simpa [grantedIn] using hflow
  window lo hi hle := by
    have hflow := mul_nonneg hrate (sub_nonneg.mpr hle)
    simpa [grantedIn] using add_nonneg hcapacity hflow

theorem Paced.level_nonneg (h : Paced capacity rate b granted) (hcapacity : 0 ≤ capacity)
    (hrate : 0 ≤ rate) (now : K) : 0 ≤ level capacity rate b now :=
  le_min (add_nonneg h.nonneg (mul_nonneg (le_max_right _ _) hrate)) hcapacity

/-- What a request finds is covered in the same way, before it takes anything. -/
theorem Paced.level_spent (h : Paced capacity rate b granted) (hrate : 0 ≤ rate)
    (hle : b.lastUpdate ≤ now) {lo : K} (hlo : lo ≤ now) :
    grantedIn lo now granted + level capacity rate b now ≤ capacity + rate * (now - lo) := by
  rcases le_or_gt lo b.lastUpdate with hbefore | hafter
  · have hspent := h.spent lo hbefore
    have hlevel : level capacity rate b now ≤ b.tokens + (now - b.lastUpdate) * rate := by
      unfold level
      rw [max_eq_left (sub_nonneg.mpr hle)]
      exact min_le_left _ _
    rw [grantedIn_of_past h.past hle]
    calc
      (grantedIn lo b.lastUpdate granted : K) + level capacity rate b now
      _ ≤ grantedIn lo b.lastUpdate granted + (b.tokens + (now - b.lastUpdate) * rate) := by gcongr
      _ ≤ capacity + rate * (b.lastUpdate - lo) + (now - b.lastUpdate) * rate := by
          rw [← add_assoc]
          gcongr
      _ = capacity + rate * (now - lo) := by ring
  · have hlevel : level capacity rate b now ≤ capacity := min_le_right _ _
    have hflow := mul_nonneg hrate (sub_nonneg.mpr hlo)
    rw [grantedIn_eq_zero h.past hafter, Nat.cast_zero, zero_add]
    exact hlevel.trans (le_add_of_nonneg_right hflow)

/-- A request that is no older than the last one takes a token if there is one. -/
theorem Paced.grant (h : Paced capacity rate b granted) (hrate : 0 ≤ rate)
    (hle : b.lastUpdate ≤ now) (hone : 1 ≤ level capacity rate b now) :
    Paced capacity rate ⟨level capacity rate b now - 1, now⟩ (granted ++ [now]) := by
  have hpast : ∀ t ∈ granted ++ [now], t ≤ now := by
    intro t ht
    rcases List.mem_append.mp ht with ht | ht
    · exact (h.past t ht).trans hle
    · exact le_of_eq (List.mem_singleton.mp ht)
  have hspent : ∀ lo ≤ now, (grantedIn lo now (granted ++ [now]) : K)
      + (level capacity rate b now - 1) ≤ capacity + rate * (now - lo) := by
    intro lo hlo
    rw [grantedIn_concat, if_pos ⟨hlo, le_refl now⟩, Nat.cast_add, Nat.cast_one]
    linarith [h.level_spent hrate hle hlo]
  refine ⟨sub_nonneg.mpr hone, hpast, hspent, fun lo hi hlohi => ?_⟩
  by_cases hin : lo ≤ now ∧ now ≤ hi
  · have hflow := mul_le_mul_of_nonneg_left (sub_le_sub_right hin.2 lo) hrate
    rw [grantedIn_of_past hpast hin.2]
    linarith [hspent lo hin.1]
  · rw [grantedIn_concat, if_neg hin, add_zero]
    exact h.window lo hi hlohi

/-- One that finds none leaves what it found. -/
theorem Paced.refuse (h : Paced capacity rate b granted) (hcapacity : 0 ≤ capacity)
    (hrate : 0 ≤ rate) (hle : b.lastUpdate ≤ now) :
    Paced capacity rate ⟨level capacity rate b now, now⟩ granted where
  nonneg := h.level_nonneg hcapacity hrate now
  past t ht := (h.past t ht).trans hle
  spent _ hlo := h.level_spent hrate hle hlo
  window := h.window

end Bound

/-! ### Full buckets, and buckets that fill -/

section Fills

variable [IsStrictOrderedRing K] {capacity rate : K} {b : Bucket K} {now : K}

omit [IsStrictOrderedRing K] in
theorem level_new (capacity rate now : K) : level capacity rate ⟨capacity, now⟩ now = capacity := by
  simp [level]

/-- A bucket that would be full at an instant is full for every request from then on. -/
theorem level_of_full (hrate : 0 ≤ rate) {horizon : K} (hnow : horizon ≤ now)
    (hfull : capacity ≤ b.tokens + (horizon - b.lastUpdate) * rate) :
    level capacity rate b now = capacity := by
  refine min_eq_right ?_
  calc
    capacity ≤ b.tokens + (horizon - b.lastUpdate) * rate := hfull
    _ ≤ b.tokens + max (now - b.lastUpdate) 0 * rate := by
        gcongr
        exact le_max_of_le_left (by gcongr)

theorem level_nonneg (hcapacity : 0 ≤ capacity) (hrate : 0 ≤ rate) (htokens : 0 ≤ b.tokens) (now : K) :
    0 ≤ level capacity rate b now :=
  le_min (add_nonneg htokens (mul_nonneg (le_max_right _ _) hrate)) hcapacity

/-- A bucket without a token has one as soon as what is missing has flowed in, and not before. -/
theorem one_le_level_iff (hcapacity : 1 ≤ capacity) (hrate : 0 < rate) (htokens : b.tokens < 1) :
    1 ≤ level capacity rate b now ↔ (1 - b.tokens) / rate ≤ now - b.lastUpdate := by
  rw [level, le_min_iff, and_iff_left hcapacity, div_le_iff₀ hrate]
  constructor
  · intro hone
    rcases le_total (now - b.lastUpdate) 0 with hpast | hlater
    · rw [max_eq_right hpast, zero_mul, add_zero] at hone
      exact absurd hone (not_le.mpr htokens)
    · rw [max_eq_left hlater] at hone
      linarith
  · intro hwaited
    have hmore : (now - b.lastUpdate) * rate ≤ max (now - b.lastUpdate) 0 * rate := by
      gcongr
      exact le_max_left _ _
    linarith

end Fills

end TokenBucket
