import CexRs.Proof.RateBounds
import CexRs.RatePolicy

/-!
# The rate limiting policy in runs

A bucket that `cleanup` takes away would be full by the time of the next request, and a key without a
bucket starts with a full one. So a limiter that is cleaned up mirrors one that is not, as long as nobody
waits for its lock for the better part of the hour. And a bucket that refuses says when it will have
filled up to a token, which is so unless someone else draws from it.
-/

namespace CexRs

open OrderedMap TokenBucket

/-! ### One limiter -/

namespace RateLimiter

variable {limiter limiter' : RateLimiter} {horizon now : ℚ} {key : String}

def Solvent (limiter : RateLimiter) : Prop :=
  ∀ (key : String) (b : Bucket ℚ), limiter.buckets[key]? = some b → 0 ≤ b.tokens

/-- A limiter that has been cleaned up, beside one that has not: what it lacks would be full at the
horizon. -/
structure Mirrors (horizon : ℚ) (limiter limiter' : RateLimiter) : Prop where
  capacity : limiter.capacity = limiter'.capacity
  refillRate : limiter.refillRate = limiter'.refillRate
  bucket : ∀ key : String, limiter.buckets[key]? = limiter'.buckets[key]? ∨
    limiter.buckets[key]? = none ∧ ∃ b : Bucket ℚ, limiter'.buckets[key]? = some b ∧
      limiter'.capacity ≤ b.tokens + (horizon - b.lastUpdate) * limiter'.refillRate
  solvent : limiter'.Solvent

theorem Mirrors.later (h : Mirrors horizon limiter limiter') (hrate : 0 ≤ limiter'.refillRate)
    {horizon' : ℚ} (hle : horizon ≤ horizon') : Mirrors horizon' limiter limiter' where
  capacity := h.capacity
  refillRate := h.refillRate
  bucket key := by
    rcases h.bucket key with hsame | ⟨hnone, b, hget, hfull⟩
    · exact .inl hsame
    · refine .inr ⟨hnone, b, hget, hfull.trans ?_⟩
      gcongr
  solvent := h.solvent

/-- Both find the same for a request after the horizon. -/
theorem Mirrors.tokens (h : Mirrors horizon limiter limiter') (hrate : 0 ≤ limiter'.refillRate)
    (hnow : horizon ≤ now) (key : String) : limiter.tokens key now = limiter'.tokens key now := by
  unfold RateLimiter.tokens RateLimiter.bucket
  rw [h.capacity, h.refillRate]
  rcases h.bucket key with hsame | ⟨hnone, b, hget, hfull⟩
  · rw [hsame]
  · rw [hnone, hget, Option.getD_none, Option.getD_some, level_new, level_of_full hrate hnow hfull]

theorem tokens_nonneg (hsolvent : limiter.Solvent) (hcapacity : 0 ≤ limiter.capacity)
    (hrate : 0 ≤ limiter.refillRate) (key : String) (now : ℚ) : 0 ≤ limiter.tokens key now := by
  refine level_nonneg hcapacity hrate ?_ now
  unfold RateLimiter.bucket
  cases hget : limiter.buckets[key]? with
  | none => exact hcapacity
  | some b => exact hsolvent key b hget

def drawn (limiter : RateLimiter) (key : String) (now : ℚ) : ℚ :=
  if 1 ≤ limiter.tokens key now then limiter.tokens key now - 1 else limiter.tokens key now

def waitSecs (limiter : RateLimiter) (key : String) (now : ℚ) : Nat :=
  max (min ⌈(1 - limiter.tokens key now) / limiter.refillRate⌉₊ (2 ^ 64 - 1)) 1

theorem check_eq (limiter : RateLimiter) (key : String) (now : ℚ) : limiter.check key now =
    ({ limiter with buckets := limiter.buckets.insert key ⟨limiter.drawn key now, now⟩ },
      if 1 ≤ limiter.tokens key now then .ok () else .error (limiter.waitSecs key now)) := by
  unfold drawn
  by_cases hone : 1 ≤ limiter.tokens key now
  · rw [if_pos hone, if_pos hone]
    exact if_pos hone
  · rw [if_neg hone, if_neg hone]
    exact if_neg hone

theorem drawn_nonneg (hsolvent : limiter.Solvent) (hcapacity : 0 ≤ limiter.capacity)
    (hrate : 0 ≤ limiter.refillRate) (key : String) (now : ℚ) : 0 ≤ limiter.drawn key now := by
  unfold drawn
  split
  · next hone => exact sub_nonneg.mpr hone
  · exact tokens_nonneg hsolvent hcapacity hrate key now

theorem Solvent.check (hsolvent : limiter.Solvent) (hcapacity : 0 ≤ limiter.capacity)
    (hrate : 0 ≤ limiter.refillRate) (key : String) (now : ℚ) :
    (limiter.check key now).1.Solvent := by
  intro key' b hget
  rw [check_eq, get_insert] at hget
  split at hget
  · cases hget
    exact drawn_nonneg hsolvent hcapacity hrate key now
  · exact hsolvent key' b hget

/-- Both answer a request after the horizon in the same way. -/
theorem Mirrors.check (h : Mirrors horizon limiter limiter') (hcapacity : 0 ≤ limiter'.capacity)
    (hrate : 0 ≤ limiter'.refillRate) (hnow : horizon ≤ now) (key : String) :
    Mirrors horizon (limiter.check key now).1 (limiter'.check key now).1 ∧
      (limiter.check key now).2 = (limiter'.check key now).2 := by
  have htokens := h.tokens hrate hnow key
  have hdrawn : limiter.drawn key now = limiter'.drawn key now := by
    rw [drawn, drawn, htokens]
  have hwait : limiter.waitSecs key now = limiter'.waitSecs key now := by
    rw [waitSecs, waitSecs, htokens, h.refillRate]
  refine ⟨⟨?_, ?_, fun key' => ?_, Solvent.check h.solvent hcapacity hrate key now⟩, ?_⟩
  · rw [capacity_check, capacity_check, h.capacity]
  · rw [refillRate_check, refillRate_check, h.refillRate]
  · rw [check_eq, check_eq, hdrawn]
    simp only [get_insert]
    by_cases hkey : key = key'
    · exact .inl (by rw [if_pos hkey, if_pos hkey])
    · rw [if_neg hkey, if_neg hkey]
      exact h.bucket key'
  · rw [check_eq, check_eq, htokens, hwait]

/-- What a cleanup takes away has not been drawn from for an hour, so it would be full at the horizon even
if that lies `wait` seconds before the time of the cleanup. -/
theorem Mirrors.cleanup (h : Mirrors horizon limiter limiter') (hrate : 0 ≤ limiter'.refillRate)
    {wait : ℚ} (hfills : limiter'.capacity ≤ (3600 - wait) * limiter'.refillRate)
    (hnow : now - wait ≤ horizon) : Mirrors horizon (limiter.cleanup now) limiter' where
  capacity := h.capacity
  refillRate := h.refillRate
  bucket key := by
    have hbuckets : (limiter.cleanup now).buckets[key]?
        = limiter.buckets[key]?.filter fun b => max (now - b.lastUpdate) 0 < 3600 :=
      Std.ExtTreeMap.getElem?_filter'
    rw [hbuckets]
    rcases h.bucket key with hsame | ⟨hnone, hfull⟩
    · cases hget : limiter'.buckets[key]? with
      | none => exact .inl (by rw [hsame, hget, Option.filter_none])
      | some b =>
          rw [hsame, hget]
          by_cases hstale : max (now - b.lastUpdate) 0 < 3600
          · exact .inl (by simp [Option.filter, hstale])
          · refine .inr ⟨by simp [Option.filter, hstale], b, rfl, ?_⟩
            have hhour : 3600 ≤ now - b.lastUpdate := by
              rcases le_max_iff.mp (not_lt.mp hstale) with hle | hle
              · exact hle
              · norm_num at hle
            calc
              limiter'.capacity ≤ (3600 - wait) * limiter'.refillRate := hfills
              _ ≤ (horizon - b.lastUpdate) * limiter'.refillRate :=
                  mul_le_mul_of_nonneg_right (by linarith) hrate
              _ ≤ b.tokens + (horizon - b.lastUpdate) * limiter'.refillRate :=
                  le_add_of_nonneg_left (h.solvent key b hget)
    · exact .inr ⟨by rw [hnone, Option.filter_none], hfull⟩
  solvent := h.solvent

/-! ### Refusals -/

structure Keeps (limiter limiter' : RateLimiter) : Prop where
  capacity : limiter'.capacity = limiter.capacity
  refillRate : limiter'.refillRate = limiter.refillRate
  solvent : limiter'.Solvent

theorem serve_append (limiter : RateLimiter) (calls calls' : List CheckCall) :
    limiter.serve (calls ++ calls') = (((limiter.serve calls).1.serve calls').1,
      (limiter.serve calls).2 ++ ((limiter.serve calls).1.serve calls').2) := by
  induction calls' using List.reverseRecOn with
  | nil => simp [serve]
  | append_singleton calls' call ih =>
      rw [← List.append_assoc, serve_concat, ih, serve_concat, List.append_assoc]

theorem serve_cons (limiter : RateLimiter) (call : CheckCall) (calls : List CheckCall) :
    limiter.serve (call :: calls) = (((limiter.check call.key call.now).1.serve calls).1,
      (call, (limiter.check call.key call.now).2)
        :: ((limiter.check call.key call.now).1.serve calls).2) := by
  have happend := limiter.serve_append [call] calls
  have hone := limiter.serve_concat [] call
  simp only [List.nil_append] at hone
  rw [hone] at happend
  exact happend

theorem serve_calls (limiter : RateLimiter) (calls : List CheckCall) :
    (limiter.serve calls).2.map Prod.fst = calls := by
  induction calls using List.reverseRecOn with
  | nil => rfl
  | append_singleton calls call ih => rw [serve_concat, List.map_append, ih]; rfl

theorem serve_keeps (hsolvent : limiter.Solvent) (hcapacity : 0 ≤ limiter.capacity)
    (hrate : 0 ≤ limiter.refillRate) (calls : List CheckCall) :
    Keeps limiter (limiter.serve calls).1 := by
  induction calls using List.reverseRecOn with
  | nil => exact ⟨rfl, rfl, hsolvent⟩
  | append_singleton calls call ih =>
      rw [serve_concat]
      refine ⟨by rw [capacity_check, ih.capacity], by rw [refillRate_check, ih.refillRate], ?_⟩
      exact ih.solvent.check (ih.capacity ▸ hcapacity) (ih.refillRate ▸ hrate) call.key call.now

/-- Calls on other keys leave the bucket of a key alone. -/
theorem buckets_serve_of_ne (limiter : RateLimiter) {calls : List CheckCall}
    (hne : ∀ call ∈ calls, call.key ≠ key) :
    (limiter.serve calls).1.buckets[key]? = limiter.buckets[key]? := by
  induction calls using List.reverseRecOn with
  | nil => rfl
  | append_singleton calls call ih =>
      rw [serve_concat, buckets_check_of_ne _ _ _ (hne call (by simp)),
        ih fun call' hmem => hne call' (List.mem_append_left _ hmem)]

/-- The seconds to retry after are enough for what is missing, and one less is not. -/
theorem waitSecs_bounds (hcapacity : 0 ≤ limiter.capacity) (hrate : 0 < limiter.refillRate)
    (hslow : 1 ≤ (2 ^ 64 - 1) * limiter.refillRate) (hsolvent : limiter.Solvent)
    (hrefused : limiter.tokens key now < 1) :
    (1 - limiter.tokens key now) / limiter.refillRate ≤ limiter.waitSecs key now ∧
      (limiter.waitSecs key now : ℚ) - 1 < (1 - limiter.tokens key now) / limiter.refillRate := by
  have hnonneg := tokens_nonneg hsolvent hcapacity hrate.le key now
  set missing := (1 - limiter.tokens key now) / limiter.refillRate with hmissing
  have hpos : 0 < missing := div_pos (sub_pos.mpr hrefused) hrate
  have hceil : ⌈missing⌉₊ ≤ 2 ^ 64 - 1 := by
    rw [Nat.ceil_le, hmissing, div_le_iff₀ hrate]
    push_cast
    linarith
  have hwait : limiter.waitSecs key now = max ⌈missing⌉₊ 1 := by
    rw [waitSecs, ← hmissing, min_eq_left hceil]
  have hone : 1 ≤ ⌈missing⌉₊ := Nat.one_le_ceil_iff.mpr hpos
  rw [hwait, max_eq_left hone]
  refine ⟨Nat.le_ceil missing, ?_⟩
  have hlt := Nat.ceil_lt_add_one hpos.le
  linarith

section Retry

variable {calls : List CheckCall} {front between back : List (CheckCall × Except Nat Unit)}
  {call call' : CheckCall} {result result' : Except Nat Unit}

/-- The limiter that serves a call, and the one that serves a later call on its key: if no other call on it
comes between them, the second finds the bucket that the first leaves. -/
theorem serve_between (hsolvent : limiter.Solvent) (hcapacity : 0 ≤ limiter.capacity)
    (hrate : 0 ≤ limiter.refillRate) (hserved : (limiter.serve calls).2
      = front ++ (call, result) :: (between ++ (call', result') :: back))
    (hbetween : ∀ r ∈ between, r.1.key ≠ call.key) :
    ∃ first second, Keeps limiter first ∧ Keeps limiter second ∧
      result = (first.check call.key call.now).2 ∧ result' = (second.check call'.key call'.now).2 ∧
      second.buckets[call.key]? = (first.check call.key call.now).1.buckets[call.key]? := by
  have hlength : ∀ (l : RateLimiter) (cs : List CheckCall), (l.serve cs).2.length = cs.length := by
    intro l cs
    rw [← List.length_map Prod.fst, serve_calls]
  have hcalls := limiter.serve_calls calls
  rw [hserved] at hcalls
  simp only [List.map_append, List.map_cons] at hcalls
  subst hcalls
  rw [serve_append] at hserved
  obtain ⟨-, hserved⟩ := List.append_inj hserved (by rw [hlength, List.length_map])
  rw [serve_cons, List.cons.injEq, Prod.mk.injEq] at hserved
  obtain ⟨⟨-, hresult⟩, hserved⟩ := hserved
  rw [serve_append] at hserved
  obtain ⟨-, hserved⟩ := List.append_inj hserved (by rw [hlength, List.length_map])
  rw [serve_cons, List.cons.injEq, Prod.mk.injEq] at hserved
  obtain ⟨⟨-, hresult'⟩, -⟩ := hserved
  have hfirst := serve_keeps hsolvent hcapacity hrate (front.map Prod.fst)
  have hsecond := serve_keeps (hfirst.solvent.check (hfirst.capacity ▸ hcapacity)
    (hfirst.refillRate ▸ hrate) call.key call.now)
    (by rw [capacity_check, hfirst.capacity]; exact hcapacity)
    (by rw [refillRate_check, hfirst.refillRate]; exact hrate) (between.map Prod.fst)
  refine ⟨_, _, hfirst, ⟨?_, ?_, hsecond.solvent⟩, hresult.symm, hresult'.symm, ?_⟩
  · rw [hsecond.capacity, capacity_check, hfirst.capacity]
  · rw [hsecond.refillRate, refillRate_check, hfirst.refillRate]
  · refine buckets_serve_of_ne _ fun c hmem => ?_
    obtain ⟨r, hr, rfl⟩ := List.mem_map.mp hmem
    exact hbetween r hr

/-- A refusal tells when the next call on the key goes through, and that it does not much sooner. -/
theorem serve_retry (hsolvent : limiter.Solvent) (hcapacity : 1 ≤ limiter.capacity)
    (hrate : 0 < limiter.refillRate) (hslow : 1 ≤ (2 ^ 64 - 1) * limiter.refillRate) {seconds : Nat}
    (hserved : (limiter.serve calls).2
      = front ++ (call, .error seconds) :: (between ++ (call', result) :: back))
    (hkey : call'.key = call.key) (hbetween : ∀ r ∈ between, r.1.key ≠ call.key) :
    (call.now + seconds ≤ call'.now → result = .ok ()) ∧
      (call'.now < call.now + (seconds - 1) → ∃ seconds', result = .error seconds') := by
  obtain ⟨first, second, hfirst, hsecond, hrefusal, hresult, hbucket⟩ :=
    serve_between hsolvent (zero_le_one.trans hcapacity) hrate.le hserved hbetween
  rw [check_eq] at hrefusal hbucket
  dsimp only at hrefusal
  split at hrefusal
  · cases hrefusal
  next hnone =>
  -- the refused call has found no token and left the bucket as it was
  have htokens : second.tokens call'.key call'.now = level limiter.capacity limiter.refillRate
      ⟨first.tokens call.key call.now, call.now⟩ call'.now := by
    rw [RateLimiter.tokens, RateLimiter.bucket, hkey, hbucket, get_insert_self, Option.getD_some,
      drawn, if_neg hnone, hsecond.capacity, hsecond.refillRate]
  obtain ⟨henough, hless⟩ := waitSecs_bounds (hfirst.capacity ▸ zero_le_one.trans hcapacity)
    (hfirst.refillRate ▸ hrate) (hfirst.refillRate ▸ hslow) hfirst.solvent (not_le.mp hnone)
  rw [← Except.error.inj hrefusal, hfirst.refillRate] at henough hless
  have hiff : 1 ≤ second.tokens call'.key call'.now ↔
      (1 - first.tokens call.key call.now) / limiter.refillRate ≤ call'.now - call.now := by
    rw [htokens]
    exact one_le_level_iff hcapacity hrate (not_le.mp hnone)
  rw [hresult, check_eq]
  dsimp only
  constructor
  · intro hlater
    rw [if_pos (hiff.mpr (by linarith))]
  · intro hsooner
    rw [if_neg fun hone => absurd (hiff.mp hone) (not_le.mpr (by linarith))]
    exact ⟨_, rfl⟩

end Retry

end RateLimiter

/-! ### The middleware -/

namespace RateLimitMiddleware

variable (policy : RateLimitMiddleware)

theorem limiter_setLimiter (limiter : RateLimiter) (name name' : LimiterName) :
    (policy.setLimiter limiter name).limiter name'
      = if name = name' then limiter else policy.limiter name' := by
  cases name <;> cases name' <;> rfl

/-- The limiters are unused, each holds a token and fills up in an hour less `wait` seconds. -/
structure Fresh (wait : ℚ) : Prop where
  unused : ∀ name, (policy.limiter name).buckets = ∅
  capacity : ∀ name, 1 ≤ (policy.limiter name).capacity
  refillRate : ∀ name, 0 < (policy.limiter name).refillRate
  fills : ∀ name, (policy.limiter name).capacity ≤ (3600 - wait) * (policy.limiter name).refillRate

end RateLimitMiddleware

namespace RatePolicy

variable (s : RatePolicy)

/-- A request gets the lock within `wait` seconds of reading the clock. -/
def Prompt (wait : ℚ) : PolicyAction → Prop
  | .lock requestId => ∀ check ∈ s.waiting[requestId]?, s.clock - wait ≤ check.2.now
  | _ => True

abbrev AllPrompt (wait : ℚ) : RatePolicy → List PolicyAction → Prop :=
  Fold.EachMeets RatePolicy.step fun s => s.Prompt wait

def isCleanup : PolicyAction → Bool
  | .cleanup _ _ => true
  | _ => false

/-- The middleware that is cleaned up, beside the one that is not. -/
structure Mirrors (wait : ℚ) (policy : RateLimitMiddleware) (s s' : RatePolicy) : Prop where
  clock : s.clock = s'.clock
  waiting : s.waiting = s'.waiting
  answered : s.answered = s'.answered
  limiter : ∀ name, (s.policy.limiter name).Mirrors (s.clock - wait) (s'.policy.limiter name)
  capacity : ∀ name, (s'.policy.limiter name).capacity = (policy.limiter name).capacity
  refillRate : ∀ name, (s'.policy.limiter name).refillRate = (policy.limiter name).refillRate

variable {s} {s' : RatePolicy} {wait : ℚ} {policy : RateLimitMiddleware}

theorem mirrors_init (hfresh : policy.Fresh wait) : Mirrors wait policy (init policy) (init policy) where
  clock := rfl
  waiting := rfl
  answered := rfl
  limiter name := ⟨rfl, rfl, fun _ => .inl rfl, fun key b hget => by
    simp [init, hfresh.unused name] at hget⟩
  capacity _ := rfl
  refillRate _ := rfl

theorem Mirrors.step (h : Mirrors wait policy s s') (hfresh : policy.Fresh wait) {action : PolicyAction}
    (hprompt : s.Prompt wait action) (haction : isCleanup action = false) :
    Mirrors wait policy (s.step action) (s'.step action) := by
  have hrate : ∀ name, 0 ≤ (s'.policy.limiter name).refillRate := by
    intro name
    rw [h.refillRate]
    exact (hfresh.refillRate name).le
  cases action with
  | elapse seconds =>
      refine ⟨?_, h.waiting, h.answered, fun name => ?_, h.capacity, h.refillRate⟩
      · simp only [RatePolicy.step, h.clock]
      · refine (h.limiter name).later (hrate name) ?_
        have hseconds : (0 : ℚ) ≤ seconds := seconds.2
        simp only [RatePolicy.step]
        linarith
  | request requestId path clientIp =>
      simp only [RatePolicy.step, h.waiting]
      split
      · exact ⟨h.clock, by rw [h.clock], h.answered, h.limiter, h.capacity, h.refillRate⟩
      · exact h
  | lock requestId =>
      simp only [RatePolicy.step, h.waiting]
      cases hget : s'.waiting[requestId]? with
      | none => exact h
      | some check =>
          obtain ⟨name, call⟩ := check
          have hnow : s.clock - wait ≤ call.now := hprompt (name, call) (by rw [h.waiting, hget]; rfl)
          have hcapacity : 0 ≤ (s'.policy.limiter name).capacity := by
            rw [h.capacity]
            exact zero_le_one.trans (hfresh.capacity name)
          obtain ⟨hmirrors, hresult⟩ := (h.limiter name).check hcapacity (hrate name) hnow call.key
          refine ⟨h.clock, rfl, ?_, fun name' => ?_, fun name' => ?_, fun name' => ?_⟩
          · simp only [h.answered, hresult]
          all_goals simp only [RateLimitMiddleware.limiter_setLimiter]
          · by_cases hname : name = name'
            · rw [if_pos hname, if_pos hname]
              exact hmirrors
            · rw [if_neg hname, if_neg hname]
              exact h.limiter name'
          · by_cases hname : name = name'
            · subst hname
              rw [if_pos rfl, RateLimiter.capacity_check, h.capacity]
            · rw [if_neg hname, h.capacity]
          · by_cases hname : name = name'
            · subst hname
              rw [if_pos rfl, RateLimiter.refillRate_check, h.refillRate]
            · rw [if_neg hname, h.refillRate]
  | cleanup name now => cases haction

theorem Mirrors.cleanup (h : Mirrors wait policy s s') (hfresh : policy.Fresh wait) (name : LimiterName)
    (now : ℚ) : Mirrors wait policy (s.step (.cleanup name now)) s' := by
  simp only [RatePolicy.step]
  split
  · next hnow =>
    refine ⟨h.clock, h.waiting, h.answered, fun name' => ?_, h.capacity, h.refillRate⟩
    simp only [RateLimitMiddleware.limiter_setLimiter]
    by_cases hname : name = name'
    · subst hname
      rw [if_pos rfl]
      refine (h.limiter name).cleanup ?_ ?_ (sub_le_sub_right hnow wait)
      · rw [h.refillRate]
        exact (hfresh.refillRate name).le
      · rw [h.capacity, h.refillRate]
        exact hfresh.fills name
    · rw [if_neg hname]
      exact h.limiter name'
  · exact h

theorem Mirrors.run (h : Mirrors wait policy s s') (hfresh : policy.Fresh wait)
    {actions : List PolicyAction} (hprompt : s.AllPrompt wait actions) :
    Mirrors wait policy (s.run actions) (s'.run (actions.filter (!isCleanup ·))) := by
  induction actions generalizing s s' with
  | nil => exact h
  | cons action actions ih =>
      cases haction : isCleanup action with
      | true =>
          rw [List.filter_cons_of_neg (by simp [haction])]
          cases action with
          | cleanup name now => exact ih (h.cleanup hfresh name now) hprompt.2
          | _ => cases haction
      | false =>
          rw [List.filter_cons_of_pos (by simp [haction])]
          exact ih (h.step hfresh hprompt.1 haction) hprompt.2

end RatePolicy

/-- **Nobody notices a cleanup.** However requests of all kinds, their waits for the locks and cleanups
interleave, as long as no request waits for its lock so long that a bucket could not fill up in the rest
of an hour: the requests are let through and refused as if there were no cleanups. -/
theorem run_cleanup_unnoticed (wait : ℚ) (policy : RateLimitMiddleware) (hfresh : policy.Fresh wait)
    (actions : List PolicyAction) (hprompt : (RatePolicy.init policy).AllPrompt wait actions) :
    ((RatePolicy.init policy).run actions).answered
      = ((RatePolicy.init policy).run (actions.filter (!RatePolicy.isCleanup ·))).answered :=
  ((RatePolicy.mirrors_init hfresh).run hfresh hprompt).answered

instance (wait : ℚ) (s : RatePolicy) : DecidablePred (s.Prompt wait)
  | .elapse _ | .request _ _ _ | .cleanup _ _ => inferInstanceAs (Decidable True)
  | .lock requestId => inferInstanceAs (Decidable (∀ check ∈ s.waiting[requestId]?,
      s.clock - wait ≤ check.2.now))

theorem fresh_default : RateLimitMiddleware.default.Fresh 3590 where
  unused := by rintro (_ | _ | _) <;> rfl
  capacity := by rintro (_ | _ | _) <;> decide +kernel
  refillRate := by rintro (_ | _ | _) <;> decide +kernel
  fills := by rintro (_ | _ | _) <;> decide +kernel

/-- An address signs in once too often, and again a second later; its bucket is taken away before it comes
back. -/
def busyAddress : List PolicyAction :=
  (List.range 21).flatMap (fun i => [.request i "/signin" "10.0.0.1", .lock i])
    ++ [.elapse 1, .request 21 "/signin" "10.0.0.1", .lock 21, .elapse 3700, .cleanup .auth 3701,
      .request 22 "/signup" "10.0.0.1", .lock 22]

theorem run_cleanup_unnoticed_busyAddress :
    ((RatePolicy.init .default).run busyAddress).answered
        = ((RatePolicy.init .default).run (busyAddress.filter (!RatePolicy.isCleanup ·))).answered ∧
      ((RatePolicy.init .default).run busyAddress).answered.length = 23 :=
  ⟨run_cleanup_unnoticed 3590 .default fresh_default busyAddress (by decide +kernel), by decide +kernel⟩

/-! ### Refusals by the middleware -/

namespace RatePolicy

variable (s : RatePolicy)

def answeredBy (name : LimiterName) : List (CheckCall × Except Nat Unit) :=
  (s.answered.filter (·.1 = name)).map Prod.snd

/-- Without cleanups, what a limiter has come to is what its calls come to in the order in which they held
its lock. -/
theorem run_serves (policy : RateLimitMiddleware) (actions : List PolicyAction) (name : LimiterName) :
    let s := (init policy).run (actions.filter (!isCleanup ·))
    (policy.limiter name).serve ((s.answeredBy name).map Prod.fst)
      = (s.policy.limiter name, s.answeredBy name) := by
  induction actions using List.reverseRecOn with
  | nil => rfl
  | append_singleton actions action ih =>
      have hrun : ∀ l, (init policy).run (l ++ [action]) = ((init policy).run l).step action := by
        intro l
        simp [run, List.foldl_append]
      rw [List.filter_append]
      cases action with
      | cleanup name' now => simpa [isCleanup] using ih
      | elapse seconds =>
          rw [List.filter_cons_of_pos rfl, List.filter_nil, hrun]
          exact ih
      | request requestId path clientIp =>
          rw [List.filter_cons_of_pos rfl, List.filter_nil, hrun]
          simp only [step]
          split
          · exact ih
          · exact ih
      | lock requestId =>
          rw [List.filter_cons_of_pos rfl, List.filter_nil, hrun]
          simp only [step]
          split
          · exact ih
          · next name' call hget =>
            dsimp only [answeredBy]
            rw [RateLimitMiddleware.limiter_setLimiter, List.filter_append, List.map_append]
            by_cases hname : name' = name
            · subst hname
              simp only [answeredBy] at ih
              rw [if_pos rfl, List.filter_cons_of_pos (by simp), List.filter_nil, List.map_append,
                List.map_cons, List.map_nil, List.map_cons, List.map_nil, RateLimiter.serve_concat, ih]
            · rw [if_neg hname, List.filter_cons_of_neg (by simpa using hname), List.filter_nil,
                List.map_nil, List.append_nil]
              exact ih

end RatePolicy

/-- **Retry-After is the truth.** Whatever else goes on: when an address has been refused and told to come
back after some seconds, its next request to the same limiter goes through if it comes that much later, and
is refused again if it comes more than a second too soon. -/
theorem run_retry_truthful (wait : ℚ) (policy : RateLimitMiddleware) (hfresh : policy.Fresh wait)
    (hslow : ∀ name, 1 ≤ (2 ^ 64 - 1) * (policy.limiter name).refillRate)
    (actions : List PolicyAction) (hprompt : (RatePolicy.init policy).AllPrompt wait actions)
    (name : LimiterName) {front between back : List (CheckCall × Except Nat Unit)}
    {call call' : CheckCall} {seconds : Nat} {result : Except Nat Unit}
    (hanswered : ((RatePolicy.init policy).run actions).answeredBy name
      = front ++ (call, .error seconds) :: (between ++ (call', result) :: back))
    (hkey : call'.key = call.key) (hbetween : ∀ r ∈ between, r.1.key ≠ call.key) :
    (call.now + seconds ≤ call'.now → result = .ok ()) ∧
      (call'.now < call.now + (seconds - 1) → ∃ seconds', result = .error seconds') := by
  have hmirrors := (RatePolicy.mirrors_init hfresh).run hfresh hprompt
  have hserves := RatePolicy.run_serves policy actions name
  rw [RatePolicy.answeredBy, hmirrors.answered] at hanswered
  have hsolvent : (policy.limiter name).Solvent := by
    intro key b hget
    simp [hfresh.unused name] at hget
  exact RateLimiter.serve_retry hsolvent (hfresh.capacity name) (hfresh.refillRate name) (hslow name)
    ((congrArg Prod.snd hserves).trans hanswered) hkey hbetween

theorem run_retry_truthful_busyAddress : ∃ result,
    ((RatePolicy.init .default).run busyAddress).answeredBy .auth
      = (List.replicate 20 (⟨"10.0.0.1", 0⟩, .ok ())) ++ (⟨"10.0.0.1", 0⟩, .error 1)
        :: ([] ++ (⟨"10.0.0.1", 1⟩, result) :: [(⟨"10.0.0.1", 3701⟩, .ok ())]) ∧ result = .ok () := by
  have hanswered : ((RatePolicy.init .default).run busyAddress).answeredBy .auth
      = (List.replicate 20 (⟨"10.0.0.1", 0⟩, .ok ())) ++ (⟨"10.0.0.1", 0⟩, .error 1)
        :: ([] ++ (⟨"10.0.0.1", 1⟩, .ok ()) :: [(⟨"10.0.0.1", 3701⟩, .ok ())]) := by decide +kernel
  exact ⟨_, hanswered, (run_retry_truthful 3590 .default fresh_default
    (by rintro (_ | _ | _) <;> decide +kernel) busyAddress (by decide +kernel) .auth hanswered rfl
    (by simp)).1 (by decide +kernel)⟩

end CexRs
