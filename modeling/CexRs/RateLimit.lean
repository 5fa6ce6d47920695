import CexRs.Lib.OrderedMap
import CexRs.Lib.TokenBucket

/-!
# The rate limiter

`rate_limit/mod.rs`, with exact rationals for tokens and for seconds. A call of `check` reads the clock
first and then waits for the lock on the buckets, which it holds to its end, so that the calls that wait
may get it in any order.
-/

namespace CexRs

open TokenBucket

structure RateLimiter where
  capacity : ℚ
  -- tokens per second
  refillRate : ℚ
  buckets : Std.ExtTreeMap String (Bucket ℚ)

namespace RateLimiter

def new (capacity refillRate : ℚ) : RateLimiter := ⟨capacity, refillRate, ∅⟩

/-- `check` under the lock, for a call that has read `now` from the clock. -/
def check (limiter : RateLimiter) (key : String) (now : ℚ) : RateLimiter × Except Nat Unit :=
  let bucket := limiter.buckets[key]?.getD ⟨limiter.capacity, now⟩
  -- `duration_since` of a later instant is zero
  let elapsed := max (now - bucket.lastUpdate) 0
  let tokens := min (bucket.tokens + elapsed * limiter.refillRate) limiter.capacity
  if 1 ≤ tokens then
    ({ limiter with buckets := limiter.buckets.insert key ⟨tokens - 1, now⟩ }, .ok ())
  else
    let missing := 1 - tokens
    let waitSecs := min ⌈missing / limiter.refillRate⌉₊ (2 ^ 64 - 1)
    ({ limiter with buckets := limiter.buckets.insert key ⟨tokens, now⟩ }, .error (max waitSecs 1))

end RateLimiter

/-! ### Concurrent calls -/

structure CheckCall where
  key : String
  now : ℚ
  deriving DecidableEq, Repr

inductive CheckAction where
  -- time passes
  | elapse (seconds : ℚ≥0)
  -- a call reads the clock
  | start (callId : Nat) (key : String)
  -- a call gets the lock
  | lock (callId : Nat)

structure RateLimited where
  clock : ℚ
  waiting : Std.ExtTreeMap Nat CheckCall
  limiter : RateLimiter
  -- what the calls have returned, in the order in which they held the lock
  returned : List (CheckCall × Except Nat Unit)

namespace RateLimited

def init (capacity refillRate : ℚ) : RateLimited := ⟨0, ∅, .new capacity refillRate, []⟩

variable (s : RateLimited)

/-- A call that is not waiting gets no lock, and one that is waiting does not start again. -/
def step : CheckAction → RateLimited
  | .elapse seconds => { s with clock := s.clock + seconds }
  | .start callId key =>
      match s.waiting[callId]? with
      | none => { s with waiting := s.waiting.insert callId ⟨key, s.clock⟩ }
      | some _ => s
  | .lock callId =>
      match s.waiting[callId]? with
      | none => s
      | some call =>
          let (limiter, result) := s.limiter.check call.key call.now
          { s with
            waiting := s.waiting.erase callId
            limiter
            returned := s.returned ++ [(call, result)] }

def run (actions : List CheckAction) : RateLimited := actions.foldl step s

end RateLimited

end CexRs
