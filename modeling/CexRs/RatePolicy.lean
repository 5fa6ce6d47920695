import CexRs.RateLimit

/-!
# The rate limiting policy

`rate_limit/middleware.rs`: which of the three limiters a request is checked by, for requests that wait for
its lock at the same time, and the `cleanup` of `rate_limit/mod.rs`, which may get a lock at any time after
it has read the clock.
-/

namespace CexRs

inductive LimiterName where
  | auth
  | trading
  | general
  deriving DecidableEq, Repr

structure RateLimitMiddleware where
  authLimiter : RateLimiter
  tradingLimiter : RateLimiter
  generalLimiter : RateLimiter

namespace RateLimitMiddleware

def default : RateLimitMiddleware := ⟨.new 20 2, .new 100 20, .new 100 20⟩

def limiter (policy : RateLimitMiddleware) : LimiterName → RateLimiter
  | .auth => policy.authLimiter
  | .trading => policy.tradingLimiter
  | .general => policy.generalLimiter

def setLimiter (policy : RateLimitMiddleware) (limiter : RateLimiter) :
    LimiterName → RateLimitMiddleware
  | .auth => { policy with authLimiter := limiter }
  | .trading => { policy with tradingLimiter := limiter }
  | .general => { policy with generalLimiter := limiter }

end RateLimitMiddleware

def startsWith (path start : String) : Bool := start.toList.isPrefixOf path.toList

/-- The limiter for a path; `/reset` is let through. The order book falls under the limiter of trading,
since its path starts with `/order` too. -/
def limiterOf (path : String) : Option LimiterName :=
  if path = "/reset" then none
  else if startsWith path "/signup" || startsWith path "/signin" then some .auth
  else if startsWith path "/order" then some .trading
  else some .general

example : limiterOf "/orderbook/sol" = some .trading ∧ limiterOf "/balance" = some .general := by
  decide +kernel

/-- A bucket goes after an hour without a request. -/
def RateLimiter.cleanup (limiter : RateLimiter) (now : ℚ) : RateLimiter :=
  { limiter with buckets := limiter.buckets.filter fun _ bucket => max (now - bucket.lastUpdate) 0 < 3600 }

/-! ### Steps -/

inductive PolicyAction where
  -- time passes
  | elapse (seconds : ℚ≥0)
  -- a request comes in; its check reads the clock
  | request (requestId : Nat) (path clientIp : String)
  -- the check gets the lock
  | lock (requestId : Nat)
  -- `cleanup` gets a lock, for what it has read from the clock
  | cleanup (name : LimiterName) (now : ℚ)

/-- `answered` has what the checks returned: a request goes through, or is refused with the seconds to
retry after. -/
structure RatePolicy where
  clock : ℚ
  waiting : Std.ExtTreeMap Nat (LimiterName × CheckCall)
  policy : RateLimitMiddleware
  answered : List (LimiterName × CheckCall × Except Nat Unit)

namespace RatePolicy

def init (policy : RateLimitMiddleware) : RatePolicy := ⟨0, ∅, policy, []⟩

variable (s : RatePolicy)

/-- What is nobody's turn changes nothing, and nobody has read a time that is still to come. -/
def step : PolicyAction → RatePolicy
  | .elapse seconds => { s with clock := s.clock + seconds }
  | .request requestId path clientIp =>
      match s.waiting[requestId]?, limiterOf path with
      | none, some name => { s with waiting := s.waiting.insert requestId (name, ⟨clientIp, s.clock⟩) }
      | _, _ => s
  | .lock requestId =>
      match s.waiting[requestId]? with
      | none => s
      | some (name, call) =>
          let (limiter, result) := (s.policy.limiter name).check call.key call.now
          { s with
            waiting := s.waiting.erase requestId
            policy := s.policy.setLimiter limiter name
            answered := s.answered ++ [(name, call, result)] }
  | .cleanup name now =>
      if now ≤ s.clock then
        { s with policy := s.policy.setLimiter ((s.policy.limiter name).cleanup now) name }
      else s

def run (actions : List PolicyAction) : RatePolicy := actions.foldl step s

end RatePolicy

end CexRs
