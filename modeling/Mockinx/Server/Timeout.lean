import Mockinx.Lib.Future
import Mockinx.Server.ShapedReply

/-!
The timeout of a rule. The response builder is an asynchronous function that never waits, and all
delays are in the stream that it returns; so the timeout around it cannot fire.
-/

set_option autoImplicit false
set_option relaxedAutoImplicit false

namespace Mockinx

open Lib

/-- What a poll of the handler reads of the clock: when it sets up a timeout, and when it looks
whether a timeout is over. A timeout past the range of the clock is over at `farFuture`. -/
structure TimerEnv where
  start : Instant
  now : Instant
  farFuture : Instant

/-- The asynchronous response builder: all of its code runs at its first poll. -/
def buildDeliveryResponseAsync (x : External) (reply : ReplySpec) (delivery : DeliverySpec)
    (permit : Bool) (out : Outside) (rng : Rng) :
    Future TimerEnv (Except Panic (Response × Rng)) :=
  .call fun _ => .done (buildDeliveryResponse x reply delivery permit out rng)

/-- Wait for a response under the timeout of a rule, within the poll that gets here. A timeout that
fires is answered with its own status. -/
def awaitResponse (timeout : Option (Range Duration))
    (inner : Rng → Future TimerEnv (Except Panic (Response × Rng))) (env : TimerEnv) (rng : Rng) :
    Future TimerEnv (Except Panic (Response × Rng)) :=
  match timeout with
  | some range =>
    match range.sample rng with
    | .ok (duration, rng) =>
      let deadline := (env.start.checkedAdd duration).getD env.farFuture
      (((inner rng).timeout fun env' => decide (deadline ≤ env'.now)).poll env).map fun
        | some response => response
        | none => .ok (.ofStatus 504, rng)
    | .error p => .done (.error p)
  | none => (inner rng).poll env

def attachCrud (crud : Option CrudStore) (r : Except Panic (Response × Rng)) :
    Except Panic ((Option CrudStore × Response) × Rng) :=
  r.map fun r => ((crud, r.1), r.2)

/-- From an admitted request to its response, as the executor drives it. -/
def resolveAndDeliverAsync (x : External) (o : OverflowChecks) (rule : Rule)
    (crud : Option CrudStore) (req : Request) (permit : Bool) (out : Outside) (rng : Rng) :
    Future TimerEnv (Except Panic ((Option CrudStore × Response) × Rng)) :=
  .call fun env =>
    match rollChaos rule.chaos rng with
    | .error p => .done (.error p)
    | .ok ((some reply, chaosDelivery), rng) =>
      (awaitResponse rule.behavior.timeout (buildDeliveryResponseAsync x reply
        (chaosDelivery.getD rule.delivery) permit out) env rng).map (attachCrud crud)
    | .ok ((none, chaosDelivery), rng) =>
      match resolveStrategy x o rule.reply crud req out with
      | .error p => .done (.error p)
      | .ok (crud, some reply) =>
        (awaitResponse rule.behavior.timeout (buildDeliveryResponseAsync x
          (resolveReflect x reply req) (chaosDelivery.getD rule.delivery) permit out) env
          rng).map (attachCrud crud)
      | .ok (crud, none) => .done (.ok ((crud, .ofStatus 500), rng))

private theorem awaitResponse_build (x : External) (timeout : Option (Range Duration))
    (reply : ReplySpec)
    (delivery : DeliverySpec) (permit : Bool) (out : Outside) (env : TimerEnv) (rng : Rng) :
    awaitResponse timeout (buildDeliveryResponseAsync x reply delivery permit out) env rng =
      .done (withTimeout timeout (buildDeliveryResponse x reply delivery permit out) rng) := by
  cases timeout with
  | none => rfl
  | some range =>
    rw [awaitResponse, withTimeout]
    cases hdraw : range.sample rng with
    | error p => rw [sampler_bind_of_error hdraw]
    | ok r =>
      obtain ⟨duration, rng'⟩ := r
      have hpoll : (((buildDeliveryResponseAsync x reply delivery permit out rng').timeout
          fun env' => decide ((env.start.checkedAdd duration).getD env.farFuture ≤ env'.now)).poll
            env) =
          .done (some (buildDeliveryResponse x reply delivery permit out rng')) := by
        rw [buildDeliveryResponseAsync]
        refine Future.poll_timeout_call ?_ _
        rfl
      rw [sampler_bind_of_ok hdraw]
      exact congrArg (Future.map _) hpoll

private theorem resolveAndDeliverAsync_eq (x : External) (o : OverflowChecks) (rule : Rule)
    (crud : Option CrudStore) (req : Request) (permit : Bool) (out : Outside) (rng : Rng) :
    resolveAndDeliverAsync x o rule crud req permit out rng =
      .call fun _ => .done (resolveAndDeliver x o rule crud req permit out rng) := by
  refine congrArg Future.call (funext fun env => ?_)
  rw [resolveAndDeliver]
  cases hroll : rollChaos rule.chaos rng with
  | error p => rw [sampler_bind_of_error hroll]
  | ok r =>
    obtain ⟨⟨chaosReply, chaosDelivery⟩, rng'⟩ := r
    rw [sampler_bind_of_ok hroll]
    cases chaosReply with
    | some reply =>
      dsimp only
      rw [awaitResponse_build]
      rfl
    | none =>
      dsimp only
      cases hreply : resolveStrategy x o rule.reply crud req out with
      | error p => rw [sampler_bind_of_error (liftPanic_error rfl rng')]
      | ok r =>
        obtain ⟨crud', reply⟩ := r
        cases reply with
        | none => rfl
        | some reply =>
          dsimp only
          rw [awaitResponse_build]
          rfl

/-- The timeout is never enforced. Whatever is drawn for the timeout of a rule and for the delay
before the first byte, and however the handler is polled, the answer is not the timeout's: neither
for a chaos reply nor for the rule's own. -/
theorem never_times_out {x : External} {o : OverflowChecks} {rule : Rule}
    {crud : Option CrudStore} {req : Request} {permit : Bool} {out : Outside} {rng rng₁ : Rng}
    {chaosReply : Option ReplySpec} {chaosDelivery : Option DeliverySpec} {delay : Range Duration}
    (hroll : rollChaos rule.chaos rng = .ok ((chaosReply, chaosDelivery), rng₁))
    (hfirst : (chaosDelivery.getD rule.delivery).firstByte = some delay)
    (polls : List TimerEnv) (crud' : Option CrudStore) (rng' : Rng) :
    (resolveAndDeliverAsync x o rule crud req permit out rng).await polls ≠
      some (.ok ((crud', .ofStatus 504), rng')) := by
  rw [resolveAndDeliverAsync_eq]
  cases polls with
  | nil => simp
  | cons env polls =>
    rw [Future.await_call_cons, Future.await_done]
    intro h
    obtain ⟨_, _, _, hroll', hcase⟩ := resolveAndDeliver_shaped (Option.some.inj h)
    obtain ⟨heq, _⟩ := Prod.mk.inj (Except.ok.inj (hroll.symm.trans hroll'))
    obtain ⟨_, rfl⟩ := Prod.mk.inj heq
    rcases hcase with hgone | ⟨reply, bytes, rng₂, hshaped⟩
    · simp [Response.ofStatus] at hgone
    · generalize hresp : Response.ofStatus 504 = resp at hshaped
      cases hshaped with
      | whole hplain =>
        rw [hplain] at hfirst
        cases hfirst
      | stream hshaped hstream =>
        rw [buildResponse_eq] at hresp
        split_ifs at hresp <;> simp [Response.ofStatus] at hresp

/-- A rule with a fixed timeout and a fixed delay before the first byte. -/
def lateRule (timeout delay : Duration) : Rule where
  matchRule := .catchAll
  reply := .static {}
  delivery := { firstByte := some (.fixed delay) }
  behavior := { timeout := some (.fixed timeout) }
  chaos := none
  source := .null

theorem late_rule_never_times_out :
    let second : Duration := ⟨1000000000, by decide⟩
    let twoSeconds : Duration := ⟨2000000000, by decide⟩
    let env : TimerEnv := ⟨.zero, ⟨1000000000, by decide⟩, .zero⟩
    let out : Outside := ⟨.zero, true, 0, "", .zero, .zero⟩
    ∀ rng', (resolveAndDeliverAsync default .checked (lateRule second twoSeconds) none default
      false out ⟨fun _ => 0⟩).await [env] ≠ some (.ok ((none, .ofStatus 504), rng')) := by
  intro second twoSeconds env out rng'
  have hroll : rollChaos (lateRule second twoSeconds).chaos ⟨fun _ => 0⟩ =
    .ok ((none, none), ⟨fun _ => 0⟩) := rfl
  exact never_times_out hroll rfl [env] none rng'

/-- That request is answered with the reply. -/
theorem late_rule_answers :
    let second : Duration := ⟨1000000000, by decide⟩
    let twoSeconds : Duration := ⟨2000000000, by decide⟩
    let env : TimerEnv := ⟨.zero, ⟨1000000000, by decide⟩, .zero⟩
    let out : Outside := ⟨.zero, true, 0, "", .zero, .zero⟩
    second < twoSeconds ∧
      ∃ resp rng', (resolveAndDeliverAsync default .checked (lateRule second twoSeconds) none
        default false out ⟨fun _ => 0⟩).await [env] = some (.ok ((none, resp), rng')) ∧
          resp.status = 200 := by
  intro second twoSeconds env out
  exact ⟨by decide, _, _, rfl, rfl⟩

end Mockinx
