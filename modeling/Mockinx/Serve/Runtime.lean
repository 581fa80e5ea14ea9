import Mockinx.Serve.BehaviorTypes

/-!
The runtime state behind an endpoint's policies, and the check that admits or rejects a request.
-/

set_option autoImplicit false
set_option relaxedAutoImplicit false

namespace Mockinx

open Lib

/-- A sliding window of request timestamps. -/
structure RateLimiter where
  maxRps : UInt32
  timestamps : List Instant

def RateLimiter.new (rps : UInt32) : RateLimiter := { maxRps := rps, timestamps := [] }

def oneSecond : Duration := ⟨10 ^ 9, by norm_num⟩

/-- Drop the timestamps that are a second old, and allow the request if there is room for it. -/
def RateLimiter.tryAcquire (l : RateLimiter) (now : Instant) :
    Except Panic (RateLimiter × Bool) :=
  match now.checkedSub oneSecond with
  | none => .error .overflow
  | some oneSecAgo =>
    let timestamps := l.timestamps.filter fun t => oneSecAgo < t
    if timestamps.length < l.maxRps.toNat then
      .ok ({ l with timestamps := timestamps ++ [now] }, true)
    else .ok ({ l with timestamps }, false)

/-- The limiters of one rule: a semaphore with its number of permits, and a rate limiter. -/
structure BehaviorRuntime where
  semaphore : Option ℕ
  rateLimiter : Option RateLimiter

def BehaviorRuntime.new (spec : BehaviorSpec) : BehaviorRuntime where
  semaphore := spec.concurrency.map fun c => c.max.toNat
  rateLimiter := spec.rateLimit.map fun rl => .new rl.rps

/-- A request proceeds, with or without a permit, or is rejected with a reply. -/
inductive BehaviorResult where
  | proceed (permit : Bool)
  | reject (reply : ReplySpec)

namespace BehaviorRuntime

def checkRate (rt : BehaviorRuntime) (spec : BehaviorSpec) (now : Instant) :
    Except Panic (BehaviorRuntime × Option ReplySpec) :=
  match rt.rateLimiter, spec.rateLimit with
  | some limiter, some rl =>
    (limiter.tryAcquire now).map fun r =>
      ({ rt with rateLimiter := some r.1 }, if r.2 then none else some rl.«over»)
  | _, _ => .ok (rt, none)

/-- The concurrency limit. `granted` is the semaphore's answer: whether it has a permit at once, or
for a bounded wait before its timeout. An unbounded wait only ends with a permit; that it may not
end at all is left out, here and in all that is built on this. -/
def checkConcurrency (rt : BehaviorRuntime) (spec : BehaviorSpec) (granted : Bool) :
    Sampler BehaviorResult :=
  match rt.semaphore, spec.concurrency with
  | some _, some conc =>
    match conc.«over» with
    | .reply reply => return if granted then .proceed true else .reject reply
    | .block => return .proceed true
    | .blockWithTimeout timeout andThen => do
      let _ ← timeout.sample
      return if granted then .proceed true else .reject andThen
  | _, _ => return .proceed false

/-- Check all policies: the rate limit first, then the concurrency limit. -/
def check (rt : BehaviorRuntime) (spec : BehaviorSpec) (now : Instant) (granted : Bool) :
    Sampler (BehaviorRuntime × BehaviorResult) := do
  let (rt, overReply) ← liftPanic (rt.checkRate spec now)
  match overReply with
  | some reply => return (rt, .reject reply)
  | none => return (rt, ← rt.checkConcurrency spec granted)

theorem check_of_rate {rt rt' : BehaviorRuntime} {spec : BehaviorSpec} {now : Instant}
    {reply : ReplySpec} (h : rt.checkRate spec now = .ok (rt', some reply)) (granted : Bool)
    (rng : Rng) : rt.check spec now granted rng = .ok ((rt', .reject reply), rng) := by
  rw [check, sampler_bind_of_ok (liftPanic_ok.mpr ⟨h, rfl⟩)]
  rfl

theorem check_of_concurrency {rt rt' : BehaviorRuntime} {spec : BehaviorSpec} {now : Instant}
    {granted : Bool} {rng rng' : Rng} {verdict : BehaviorResult}
    (h : rt.checkRate spec now = .ok (rt', none))
    (hc : rt'.checkConcurrency spec granted rng = .ok (verdict, rng')) :
    rt.check spec now granted rng = .ok ((rt', verdict), rng') := by
  rw [check, sampler_bind_of_ok (liftPanic_ok.mpr ⟨h, rfl⟩)]
  dsimp only
  rw [sampler_bind_of_ok hc]
  rfl

end BehaviorRuntime

end Mockinx
