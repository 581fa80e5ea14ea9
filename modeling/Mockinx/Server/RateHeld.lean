import Mockinx.Serve.RateHistory
import Mockinx.Server.Isolation

/-!
The rate limit of a rule in a running server. The limiter of a rule sees the requests that find the
rule and no others, and its decisions show in the answers.
-/

set_option autoImplicit false
set_option relaxedAutoImplicit false

namespace Mockinx

open Lib Lib.Run Lib.Parts SequentialLimiter

variable {α : Type}

structure LiveRule.Limited (rl : RateLimitSpec) (limiter : RateLimiter) (live : LiveRule α) :
    Prop where
  limit : live.rule.behavior.rateLimit = some rl
  limiter : live.state.runtime.bind (·.rateLimiter) = some limiter

/-- How the answer to a call shows the decision: a call over the limit gets the reply for that, and
one that panics in the limiter gets none. -/
structure ShowsDecision (x : External) (rl : RateLimitSpec) (call : Call α × Option Response)
    (out : Instant × Option Bool) : Prop where
  time : out.1 = call.1.out.limiterNow
  rejected : out.2 = some false →
    call.2 = (buildReplyResponse (x.withFiles call.1.files) rl.«over»).toOption
  panicked : out.2 = none → call.2 = none

/-- The calls that pass, with their answers. -/
def passed (calls : List (Call α × Option Response)) (decisions : List (Instant × Option Bool)) :
    List (Call α × Option Response) :=
  (calls.zip decisions).filterMap fun r => if r.2.2 = some true then some r.1 else none

def Rule.unlimited (rule : Rule) : Rule :=
  { rule with behavior := { rule.behavior with rateLimit := none } }

def RuleState.unlimited (st : RuleState α) : RuleState α :=
  { st with runtime := st.runtime.map fun rt => { rt with rateLimiter := none } }

/-- A rule in the registry, without the rate limit. -/
def LiveRule.unlimited (live : LiveRule α) : LiveRule α :=
  ⟨live.rule.unlimited, live.state.unlimited⟩

private theorem passed_cons (call : Call α × Option Response)
    (calls : List (Call α × Option Response))
    (out : Instant × Option Bool) (decisions : List (Instant × Option Bool)) :
    passed (call :: calls) (out :: decisions) =
      if out.2 = some true then call :: passed calls decisions else passed calls decisions := by
  rw [passed, List.zip_cons_cons, List.filterMap_cons]
  split_ifs <;> rfl

namespace Handling

variable {x : External} {o : OverflowChecks} {rule : Rule} {addr : α} {req : Request}
  {out : Outside}

private theorem checkPolicies_of_passed {spec : BehaviorSpec} {st : RuleState α}
    {rt : BehaviorRuntime} {l : RateLimiter} (hrt : st.runtime = some rt)
    (hrate : rt.checkRate spec out.limiterNow = .ok ({ rt with rateLimiter := some l }, none))
    (rng : Rng) :
    checkPolicies { spec with rateLimit := none } out (st.unlimited, rng) =
      let r := checkPolicies spec out (st, rng)
      (r.1, r.2.1.unlimited, r.2.2) := by
  have hrt' : st.unlimited.runtime = some { rt with rateLimiter := none } := by
    rw [RuleState.unlimited, hrt]
    rfl
  have hrate' : BehaviorRuntime.checkRate { rt with rateLimiter := none }
      { spec with rateLimit := none } out.limiterNow =
        .ok ({ rt with rateLimiter := none }, none) := rfl
  simp only [checkPolicies, OptionT.mk, hrt, hrt', hrate, hrate', draw_apply]
  have hsame : BehaviorRuntime.checkConcurrency { rt with rateLimiter := none }
      { spec with rateLimit := none } out.granted =
        BehaviorRuntime.checkConcurrency { rt with rateLimiter := some l } spec out.granted := rfl
  rw [hsame]
  cases BehaviorRuntime.checkConcurrency { rt with rateLimiter := some l } spec out.granted rng <;>
    rfl

variable [DecidableEq α]

private theorem resolveStrategy_unlimited (strategy : ReplyStrategy) (st : RuleState α)
    (rng : Rng) :
    resolveStrategy x o strategy addr req out (st.unlimited, rng) =
      let r := resolveStrategy x o strategy addr req out (st, rng)
      (r.1, r.2.1.unlimited, r.2.2) := by
  cases strategy with
  | static reply => rfl
  | sequence replies => rfl
  | crud spec headers =>
    obtain ⟨runtime, _ | store, calls⟩ := st <;> rfl

private theorem resolveAndDeliver_unlimited (permit : Bool) (st : RuleState α) (rng : Rng) :
    resolveAndDeliver x o rule.unlimited addr req permit out (st.unlimited, rng) =
      let r := resolveAndDeliver x o rule addr req permit out (st, rng)
      (r.1, r.2.1.unlimited, r.2.2) := by
  simp only [resolveAndDeliver, bind_apply, draw_apply, Rule.unlimited]
  rcases rollChaos rule.chaos rng with p | ⟨⟨_ | reply, delivery⟩, rng'⟩
  · rfl
  · simp only [bind_apply, resolveStrategy_unlimited]
    rcases resolveStrategy x o rule.reply addr req out (st, rng') with ⟨_ | _ | reply, st', rng''⟩
    · rfl
    · rfl
    · simp only [draw_apply]
      split <;> rfl
  · simp only [draw_apply]
    split <;> rfl

end Handling

variable [DecidableEq α]

namespace LiveRule

variable {x : External} {o : OverflowChecks} {live : LiveRule α} {c : Call α} {rt : BehaviorRuntime}

theorem serve_of_rate_error (hrt : live.state.runtime = some rt) {p : Panic}
    (hrate : rt.checkRate live.rule.behavior c.out.limiterNow = .error p) :
    live.serve x o c = (live, none) := by
  have hcheck : Handling.checkPolicies live.rule.behavior c.out (live.state, c.rng) =
      (none, (live.state, c.rng)) := by
    simp only [Handling.checkPolicies, OptionT.mk, hrt, hrate]
  rw [LiveRule.serve, LiveRule.handle, Handling.handleMatched, Handling.bind_apply, hcheck]

private theorem serve_of_rate_over (hrt : live.state.runtime = some rt) {rt' : BehaviorRuntime}
    {reply : ReplySpec}
    (hrate : rt.checkRate live.rule.behavior c.out.limiterNow = .ok (rt', some reply)) :
    live.serve x o c = (⟨live.rule, { live.state with runtime := some rt' }⟩,
      (buildReplyResponse (x.withFiles c.files) reply).toOption) := by
  have hcheck : Handling.checkPolicies live.rule.behavior c.out (live.state, c.rng) =
      (some (.reject reply), ({ live.state with runtime := some rt' }, c.rng)) := by
    simp only [Handling.checkPolicies, OptionT.mk, hrt, hrate]
  rw [LiveRule.serve, LiveRule.handle, Handling.handleMatched, Handling.bind_apply, hcheck]
  dsimp only
  rw [Handling.draw_apply, liftPanic]
  change _ = (_, (buildReplyResponse { x with readFile := c.files } reply).toOption)
  cases buildReplyResponse { x with readFile := c.files } reply <;> rfl

private theorem serve_of_rate_passed (hrt : live.state.runtime = some rt) {l : RateLimiter}
    (hrate : rt.checkRate live.rule.behavior c.out.limiterNow =
      .ok ({ rt with rateLimiter := some l }, none)) :
    (live.serve x o c).1.state.runtime = some { rt with rateLimiter := some l } ∧
      live.unlimited.serve x o c =
        ((live.serve x o c).1.unlimited, (live.serve x o c).2) := by
  constructor
  · have hresolves := Handling.resolves_handleMatched { x with readFile := c.files } o c.addr c.req
      c.out live.rule live.state c.rng
    refine hresolves.runtime.trans ?_
    simp only [Handling.checkPolicies, OptionT.mk, hrt, hrate]
    rw [Handling.draw_state]
  · have hcheck := Handling.checkPolicies_of_passed hrt hrate c.rng
    simp only [LiveRule.serve, LiveRule.handle, LiveRule.unlimited, Handling.handleMatched,
      Handling.bind_apply]
    rw [show live.rule.unlimited.behavior = { live.rule.behavior with rateLimit := none } from rfl,
      hcheck]
    dsimp only
    rcases Handling.checkPolicies live.rule.behavior c.out (live.state, c.rng) with
      ⟨_ | verdict, st, rng⟩
    · rfl
    · cases verdict with
      | reject reply =>
        simp only [Handling.draw_apply]
        split <;> rfl
      | proceed permit =>
        simp only [Handling.resolveAndDeliver_unlimited]

/-- The step lemma: a request makes one call of the limiter, which decides about it. A request that
passes is served as it would be without the limit. -/
private theorem Limited.serve {rl : RateLimitSpec} {s t : SequentialLimiter}
    (h : live.Limited rl s.limiter) {out : Instant × Option Bool}
    (hstep : s.step c.out.limiterNow = some (t, out)) :
    (live.serve x o c).1.Limited rl t.limiter ∧
      ShowsDecision x rl (c, (live.serve x o c).2) out ∧
      (out.2 = some true → live.unlimited.serve x o c =
        ((live.serve x o c).1.unlimited, (live.serve x o c).2)) ∧
      (out.2 ≠ some true → (live.serve x o c).1.unlimited = live.unlimited) := by
  obtain ⟨rt, hrt, hlimiter⟩ := Option.bind_eq_some_iff.mp h.limiter
  have hcheck : rt.checkRate live.rule.behavior c.out.limiterNow =
      (s.limiter.tryAcquire c.out.limiterNow).map fun r =>
        ({ rt with rateLimiter := some r.1 }, if r.2 then none else some rl.«over») := by
    simp only [BehaviorRuntime.checkRate, hlimiter, h.limit]
  rw [SequentialLimiter.step] at hstep
  split_ifs at hstep
  rcases hacq : s.limiter.tryAcquire c.out.limiterNow with p | ⟨l, allowed⟩ <;>
    rw [hacq] at hstep hcheck <;> obtain ⟨rfl, rfl⟩ := Prod.mk.inj (Option.some.inj hstep)
  · rw [serve_of_rate_error hrt hcheck]
    refine ⟨h, ⟨rfl, fun hfalse => ?_, fun _ => rfl⟩, fun htrue => ?_, fun _ => rfl⟩
    · cases hfalse
    · cases htrue
  · cases allowed with
    | false =>
      rw [serve_of_rate_over hrt hcheck]
      refine ⟨⟨h.limit, rfl⟩, ⟨rfl, fun _ => rfl, fun hnone => ?_⟩, fun htrue => ?_, fun _ => ?_⟩
      · cases hnone
      · cases htrue
      · rw [LiveRule.unlimited, LiveRule.unlimited, RuleState.unlimited, RuleState.unlimited, hrt]
        rfl
    | true =>
      obtain ⟨hruntime, hserve⟩ := serve_of_rate_passed (x := x) (o := o) hrt hcheck
      refine ⟨⟨h.limit, ?_⟩, ⟨rfl, fun hfalse => ?_, fun hnone => ?_⟩, fun _ => hserve,
        fun hpass => (hpass rfl).elim⟩
      · rw [hruntime]
        rfl
      · cases hfalse
      · cases hnone

/-- The run lemma. -/
private theorem Limited.run {rl : RateLimitSpec} {s t : SequentialLimiter} {live' : LiveRule α}
    (h : live.Limited rl s.limiter) {calls : List (Call α)} {answers : List (Option Response)}
    {outs : List (Instant × Option Bool)}
    (hcalls : run (fun live c => some (LiveRule.serve x o live c)) live calls =
      some (live', answers))
    (hlimiter : run SequentialLimiter.step s (calls.map (·.out.limiterNow)) = some (t, outs)) :
    List.Forall₂ (ShowsDecision x rl) (calls.zip answers) outs ∧
      run (fun live c => some (LiveRule.serve x o live c)) live.unlimited
        ((passed (calls.zip answers) outs).map Prod.fst) =
          some (live'.unlimited, (passed (calls.zip answers) outs).map Prod.snd) := by
  induction calls generalizing live s answers outs with
  | nil =>
    obtain ⟨_, rfl⟩ := Prod.mk.inj (Option.some.inj hlimiter)
    obtain ⟨rfl, rfl⟩ := Prod.mk.inj (Option.some.inj hcalls)
    exact ⟨.nil, rfl⟩
  | cons c calls ih =>
    obtain ⟨rest, hrest, rfl⟩ := run_some_cons_eq_some.mp hcalls
    obtain ⟨m, out, more, hstep, hmore, rfl⟩ := run_cons_eq_some.mp hlimiter
    obtain ⟨hlimited, hshows, hpass, hstay⟩ := h.serve (x := x) (o := o) hstep
    obtain ⟨hshown, hlater⟩ := ih hlimited hrest hmore
    refine ⟨.cons hshows hshown, ?_⟩
    by_cases hout : out.2 = some true
    · rw [List.zip_cons_cons, passed_cons, if_pos hout, List.map_cons, List.map_cons]
      exact run_some_cons_eq_some.mpr ⟨_, by rw [hpass hout]; exact hlater, by rw [hpass hout]⟩
    · rw [List.zip_cons_cons, passed_cons, if_neg hout, ← hstay hout]
      exact hlater

end LiveRule

end Mockinx
