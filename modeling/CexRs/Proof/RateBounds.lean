import CexRs.Lib.Fold
import CexRs.RateLimit

/-!
# What the rate limiter admits

Each key has a bucket of its own, and a call changes that of its own key. What a key is granted in an
interval is bounded as long as its bucket is drawn from in the order in which the calls have read the
clock. A call that comes late takes the clock of the bucket back, and the next one is credited the same
time again.
-/

namespace CexRs

open TokenBucket OrderedMap

namespace RateLimiter

variable (limiter : RateLimiter) (key : String) (now : ℚ)

def bucket : Bucket ℚ := limiter.buckets[key]?.getD ⟨limiter.capacity, now⟩

def tokens : ℚ := level limiter.capacity limiter.refillRate (limiter.bucket key now) now

/-- Everything that a call does: it is granted a token, or it leaves the bucket as it stands by then. -/
theorem check_cases :
    (1 ≤ limiter.tokens key now ∧ limiter.check key now =
      ({ limiter with buckets := limiter.buckets.insert key ⟨limiter.tokens key now - 1, now⟩ },
        .ok ())) ∨
    ∃ waitSecs, limiter.check key now =
      ({ limiter with buckets := limiter.buckets.insert key ⟨limiter.tokens key now, now⟩ },
        .error waitSecs) := by
  by_cases hone : 1 ≤ limiter.tokens key now
  · exact .inl ⟨hone, if_pos hone⟩
  · exact .inr ⟨_, if_neg hone⟩

@[simp] theorem capacity_check : (limiter.check key now).1.capacity = limiter.capacity := by
  rcases limiter.check_cases key now with ⟨_, heq⟩ | ⟨_, heq⟩ <;> rw [heq]

@[simp] theorem refillRate_check : (limiter.check key now).1.refillRate = limiter.refillRate := by
  rcases limiter.check_cases key now with ⟨_, heq⟩ | ⟨_, heq⟩ <;> rw [heq]

theorem buckets_check_of_ne {key' : String} (hne : key ≠ key') :
    (limiter.check key now).1.buckets[key']? = limiter.buckets[key']? := by
  rcases limiter.check_cases key now with ⟨_, heq⟩ | ⟨_, heq⟩ <;> rw [heq]
  · exact get_insert_of_ne hne
  · exact get_insert_of_ne hne

structure AgreeOn (limiter limiter' : RateLimiter) : Prop where
  capacity : limiter.capacity = limiter'.capacity
  refillRate : limiter.refillRate = limiter'.refillRate
  bucket : limiter.buckets[key]? = limiter'.buckets[key]?

variable {limiter key now} {limiter' : RateLimiter}

variable (now) in
theorem AgreeOn.check (h : AgreeOn key limiter limiter') :
    AgreeOn key (limiter.check key now).1 (limiter'.check key now).1 ∧
      (limiter.check key now).2 = (limiter'.check key now).2 := by
  obtain ⟨hcapacity, hrate, hbucket⟩ := h
  unfold RateLimiter.check
  simp only [hcapacity, hrate, hbucket]
  split
  · exact ⟨⟨rfl, rfl, by simp only [get_insert_self]⟩, rfl⟩
  · exact ⟨⟨rfl, rfl, by simp only [get_insert_self]⟩, rfl⟩

theorem AgreeOn.check_other (h : AgreeOn key limiter limiter') {key' : String} (hne : key' ≠ key) :
    AgreeOn key (limiter.check key' now).1 limiter' where
  capacity := (limiter.capacity_check key' now).trans h.capacity
  refillRate := (limiter.refillRate_check key' now).trans h.refillRate
  bucket := (limiter.buckets_check_of_ne key' now hne).trans h.bucket

/-! ### Calls one after the other -/

def serve (limiter : RateLimiter) (calls : List CheckCall) :
    RateLimiter × List (CheckCall × Except Nat Unit) :=
  calls.foldl (fun (limiter, returned) call =>
    let (limiter, result) := limiter.check call.key call.now
    (limiter, returned ++ [(call, result)])) (limiter, [])

theorem serve_concat (limiter : RateLimiter) (calls : List CheckCall) (call : CheckCall) :
    limiter.serve (calls ++ [call]) =
      (((limiter.serve calls).1.check call.key call.now).1,
        (limiter.serve calls).2 ++ [(call, ((limiter.serve calls).1.check call.key call.now).2)]) := by
  simp [serve, List.foldl_append]

/-- The calls on a key are served as if there were no others. -/
theorem serve_alone (limiter : RateLimiter) (key : String) (calls : List CheckCall) :
    AgreeOn key (limiter.serve calls).1 (limiter.serve (calls.filter (·.key = key))).1 ∧
      (limiter.serve calls).2.filter (·.1.key = key)
        = (limiter.serve (calls.filter (·.key = key))).2 := by
  induction calls using List.reverseRecOn with
  | nil => exact ⟨⟨rfl, rfl, rfl⟩, rfl⟩
  | append_singleton calls call ih =>
      obtain ⟨hagree, hreturned⟩ := ih
      rw [List.filter_append, serve_concat, List.filter_append, hreturned]
      by_cases hkey : call.key = key
      · obtain ⟨hcheck, hresult⟩ := hagree.check call.now
        subst hkey
        rw [List.filter_cons_of_pos (by simp), List.filter_nil, serve_concat]
        refine ⟨hcheck, ?_⟩
        simp [hresult]
      · rw [List.filter_cons_of_neg (by simpa using hkey), List.filter_nil, List.append_nil]
        refine ⟨hagree.check_other hkey, ?_⟩
        simp [hkey]

end RateLimiter

/-! ### Runs -/

namespace RateLimited

variable (s : RateLimited)

/-- Only a call that is waiting and gets the lock changes the buckets, and it returns. -/
theorem step_cases (action : CheckAction) :
    ((s.step action).limiter = s.limiter ∧ (s.step action).returned = s.returned) ∨
    ∃ callId call, action = .lock callId ∧ s.waiting[callId]? = some call ∧
      (s.step action).limiter = (s.limiter.check call.key call.now).1 ∧
      (s.step action).returned
        = s.returned ++ [(call, (s.limiter.check call.key call.now).2)] := by
  cases action with
  | elapse seconds => exact .inl ⟨rfl, rfl⟩
  | start callId key =>
      left
      cases hwaiting : s.waiting[callId]? <;> simp [step, hwaiting]
  | lock callId =>
      cases hwaiting : s.waiting[callId]? with
      | none => exact .inl (by simp [step, hwaiting])
      | some call => exact .inr ⟨callId, call, rfl, hwaiting, by simp [step, hwaiting]⟩

/-- What a run has come to is what its calls come to in the order in which they held the lock. -/
theorem run_served (cap rate : ℚ) (actions : List CheckAction) :
    let s := (init cap rate).run actions
    (RateLimiter.new cap rate).serve (s.returned.map Prod.fst) = (s.limiter, s.returned) := by
  induction actions using List.reverseRecOn with
  | nil => rfl
  | append_singleton actions action ih =>
      have hrun : (init cap rate).run (actions ++ [action])
          = ((init cap rate).run actions).step action := by
        simp [run, List.foldl_append]
      rcases ((init cap rate).run actions).step_cases action with
        ⟨hlimiter, hreturned⟩ | ⟨_, call, _, _, hlimiter, hreturned⟩
      · simp only [hrun, hlimiter, hreturned]
        exact ih
      · simp only [hrun, hlimiter, hreturned, List.map_append, List.map_cons, List.map_nil]
        rw [RateLimiter.serve_concat, ih]

def granted (key : String) : List ℚ :=
  (s.returned.filter fun r => r.1.key = key && r.2.isOk).map (·.1.now)

/-- A call gets the lock before any call on its key that has read the clock later. -/
def Timely : CheckAction → Prop
  | .elapse _ | .start _ _ => True
  | .lock callId => ∀ call ∈ s.waiting[callId]?, ∀ bucket ∈ s.limiter.buckets[call.key]?,
      bucket.lastUpdate ≤ call.now

abbrev AllTimely : RateLimited → List CheckAction → Prop :=
  Fold.EachMeets RateLimited.step Timely

structure Accounted (cap rate : ℚ) (s : RateLimited) : Prop where
  capacity : s.limiter.capacity = cap
  refillRate : s.limiter.refillRate = rate
  paced : ∀ key, ∀ bucket ∈ s.limiter.buckets[key]?, Paced cap rate bucket (s.granted key)
  unused : ∀ key, s.limiter.buckets[key]? = none → s.granted key = []

variable {s} {s' : RateLimited} {cap rate : ℚ} {call : CheckCall}

theorem accounted_init (cap rate : ℚ) : Accounted cap rate (init cap rate) where
  capacity := rfl
  refillRate := rfl
  paced key bucket hbucket := by simp [init, RateLimiter.new] at hbucket
  unused key _ := rfl

/-- What the bucket of a call accounts for. -/
theorem Accounted.bucket (h : Accounted cap rate s) (hcap : 0 ≤ cap) (hrate : 0 ≤ rate)
    (call : CheckCall) : Paced cap rate (s.limiter.bucket call.key call.now) (s.granted call.key) := by
  unfold RateLimiter.bucket
  cases hbucket : s.limiter.buckets[call.key]? with
  | none =>
      rw [h.unused _ hbucket, h.capacity]
      exact paced_full hcap hrate call.now
  | some bucket => exact h.paced _ bucket hbucket

/-- Only the bucket of the call, and what its key was granted, have to be looked at. -/
theorem Accounted.update (h : Accounted cap rate s) {bucket : Bucket ℚ}
    (hlimiter : s'.limiter =
      { s.limiter with buckets := s.limiter.buckets.insert call.key bucket })
    (hpaced : Paced cap rate bucket (s'.granted call.key))
    (hother : ∀ key, call.key ≠ key → s'.granted key = s.granted key) : Accounted cap rate s' where
  capacity := by rw [hlimiter, h.capacity]
  refillRate := by rw [hlimiter, h.refillRate]
  paced key bucket' hbucket := by
    rw [hlimiter, get_insert] at hbucket
    by_cases hkey : call.key = key
    · rw [if_pos hkey] at hbucket
      cases hbucket
      exact hkey ▸ hpaced
    · rw [if_neg hkey] at hbucket
      rw [hother key hkey]
      exact h.paced key bucket' hbucket
  unused key hnone := by
    rw [hlimiter, get_insert] at hnone
    by_cases hkey : call.key = key
    · rw [if_pos hkey] at hnone
      cases hnone
    · rw [if_neg hkey] at hnone
      rw [hother key hkey]
      exact h.unused key hnone

theorem granted_of_other {result : Except Nat Unit} {key : String}
    (hreturned : s'.returned = s.returned ++ [(call, result)]) (hne : call.key ≠ key) :
    s'.granted key = s.granted key := by
  simp [granted, hreturned, List.filter_append, hne]

theorem Accounted.step (h : Accounted cap rate s) (hcap : 0 ≤ cap) (hrate : 0 ≤ rate)
    {action : CheckAction} (htimely : s.Timely action) : Accounted cap rate (s.step action) := by
  rcases s.step_cases action with
    ⟨hlimiter, hreturned⟩ | ⟨callId, call, rfl, hwaiting, hlimiter, hreturned⟩
  · have hgranted : (s.step action).granted = s.granted := by
      funext key
      rw [granted, hreturned, granted]
    constructor <;> rw [hlimiter]
    · exact h.capacity
    · exact h.refillRate
    · rw [hgranted]
      exact h.paced
    · rw [hgranted]
      exact h.unused
  · have hpaced := h.bucket hcap hrate call
    have hother := fun key (hne : call.key ≠ key) => granted_of_other hreturned hne
    have hle : (s.limiter.bucket call.key call.now).lastUpdate ≤ call.now := by
      unfold RateLimiter.bucket
      cases hbucket : s.limiter.buckets[call.key]? with
      | none => exact le_refl _
      | some bucket => exact htimely call hwaiting bucket hbucket
    have htokens : s.limiter.tokens call.key call.now
        = level cap rate (s.limiter.bucket call.key call.now) call.now := by
      rw [RateLimiter.tokens, h.capacity, h.refillRate]
    rcases s.limiter.check_cases call.key call.now with ⟨hone, hcheck⟩ | ⟨waitSecs, hcheck⟩ <;>
      rw [hcheck] at hlimiter hreturned
    · have hgranted : (s.step (.lock callId)).granted call.key
          = s.granted call.key ++ [call.now] := by
        simp [granted, hreturned, List.filter_append, Except.isOk, Except.toBool]
      refine h.update hlimiter ?_ hother
      rw [hgranted, htokens]
      exact hpaced.grant hrate hle (htokens ▸ hone)
    · have hgranted : (s.step (.lock callId)).granted call.key = s.granted call.key := by
        simp [granted, hreturned, List.filter_append, Except.isOk, Except.toBool]
      refine h.update hlimiter ?_ hother
      rw [hgranted, htokens]
      exact hpaced.refuse hcap hrate hle

theorem Accounted.run (h : Accounted cap rate s) (hcap : 0 ≤ cap) (hrate : 0 ≤ rate)
    {actions : List CheckAction} (htimely : s.AllTimely actions) :
    Accounted cap rate (s.run actions) :=
  Fold.EachMeets.foldl htimely h fun _ hs _ _ hnext => hs.step hcap hrate hnext

end RateLimited

/-- In no interval has a key been granted more than the capacity and what flows in over the interval;
and the calls on a key have returned what they return in the same order on their own. -/
structure RateLimited.Bounded (cap rate : ℚ) (s : RateLimited) : Prop where
  window : ∀ key lo hi, lo ≤ hi → grantedIn lo hi (s.granted key) ≤ cap + rate * (hi - lo)
  alone : ∀ key, s.returned.filter (·.1.key = key)
    = ((RateLimiter.new cap rate).serve ((s.returned.map Prod.fst).filter (·.key = key))).2

/-- **The rate limiter keeps to its bound as long as no call is overtaken.** -/
theorem run_bounded (cap rate : ℚ) (hcap : 1 ≤ cap) (hrate : 0 < rate) (actions : List CheckAction)
    (htimely : (RateLimited.init cap rate).AllTimely actions) :
    ((RateLimited.init cap rate).run actions).Bounded cap rate := by
  have haccounted := (RateLimited.accounted_init cap rate).run (zero_le_one.trans hcap) hrate.le htimely
  have hserved := RateLimited.run_served cap rate actions
  generalize (RateLimited.init cap rate).run actions = s at haccounted hserved
  refine ⟨fun key lo hi hle => ?_, fun key => ?_⟩
  · cases hbucket : s.limiter.buckets[key]? with
    | none =>
        have hflow := mul_nonneg hrate.le (sub_nonneg.mpr hle)
        rw [haccounted.unused key hbucket]
        simpa [grantedIn] using add_nonneg (zero_le_one.trans hcap) hflow
    | some bucket => exact (haccounted.paced key bucket hbucket).window lo hi hle
  · have halone := ((RateLimiter.new cap rate).serve_alone key (s.returned.map Prod.fst)).2
    rwa [hserved] at halone

instance (s : RateLimited) : DecidablePred s.Timely
  | .elapse _ | .start _ _ => inferInstanceAs (Decidable True)
  | .lock callId => inferInstanceAs (Decidable (∀ call ∈ s.waiting[callId]?,
      ∀ bucket ∈ s.limiter.buckets[call.key]?, bucket.lastUpdate ≤ call.now))

/-- Four calls from two addresses; two of one wait at the same time, and the older goes first. -/
def orderly : List CheckAction :=
  [.start 1 "10.0.0.1", .elapse (1 / 2), .start 2 "10.0.0.1", .lock 1, .start 3 "10.0.0.2", .lock 3,
    .lock 2, .elapse (1 / 2), .start 4 "10.0.0.1", .lock 4]

theorem run_bounded_orderly : ((RateLimited.init 1 1).run orderly).Bounded 1 1 ∧
    ((RateLimited.init 1 1).run orderly).granted "10.0.0.1" = [0, 1] :=
  ⟨run_bounded 1 1 (by decide) (by decide) orderly (by decide +kernel), by decide +kernel⟩

/-- A call reads the clock together with the first one and gets the lock ten seconds later, after a
call that has just read it. -/
def overtaken : List CheckAction :=
  [.start 1 "10.0.0.1", .start 2 "10.0.0.1", .lock 1, .elapse 10, .start 3 "10.0.0.1", .lock 3,
    .lock 2, .start 4 "10.0.0.1", .lock 4]

/-- The ten seconds are credited twice: from a bucket for one token, two are drawn at one instant. -/
theorem overtaken_overdraws :
    grantedIn 10 10 (((RateLimited.init 1 1).run overtaken).granted "10.0.0.1") = 2 ∧
      ¬ ((RateLimited.init 1 1).run overtaken).Bounded 1 1 := by
  have hgranted : grantedIn 10 10 (((RateLimited.init 1 1).run overtaken).granted "10.0.0.1") = 2 := by
    decide +kernel
  refine ⟨hgranted, fun hbounded => ?_⟩
  have hwindow := hbounded.window "10.0.0.1" 10 10 (le_refl 10)
  rw [hgranted] at hwindow
  norm_num at hwindow

end CexRs
