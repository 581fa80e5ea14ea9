import Mockinx.Chaos.Selection
import Mockinx.Server.Isolation
import Mockinx.Server.ReflectSafety
import Mockinx.WellFormed

/-!
How a rule comes by its answer to a request. All ways through the handler in one list: a panic in
the checks, a rejection, a strategy without a reply, or a reply that is delivered.
-/

set_option autoImplicit false
set_option relaxedAutoImplicit false

namespace Mockinx

open Lib

variable {α : Type}

/-- A reply that a request may be answered with: one of the limits or of the chaos entries, or the
one that the strategy resolves to. -/
inductive LiveRule.MaySend [DecidableEq α] (x : External) (o : OverflowChecks) (live : LiveRule α)
    (c : Call α) : ReplySpec → Prop
  | side {reply : ReplySpec} : reply ∈ live.rule.sideReplies → MaySend x o live c reply
  | own {reply : ReplySpec} :
      (Handling.resolveStrategy x o live.rule.reply c.addr c.req c.out (live.state, c.rng)).1 =
        some (some reply) → MaySend x o live c (resolveReflect x reply c.req)

private theorem resultAt_cases (entries : List (ChaosEntry F64)) (i : Option ℕ) :
    resultAt entries i = .normal ∨
      ∃ entry ∈ entries, resultAt entries i = .override entry.reply entry.serve := by
  rw [resultAt]
  cases hentry : i.bind fun i => entries[i]? with
  | none => exact Or.inl rfl
  | some entry =>
    obtain ⟨i, _, hi⟩ := Option.bind_eq_some_iff.mp hentry
    exact Or.inr ⟨entry, List.mem_of_getElem? hi, rfl⟩

private theorem Rule.rollChaos_ok (rule : Rule) (rng : Rng) :
    ∃ reply serve rng', rollChaos rule.chaos rng = .ok ((reply, serve), rng') ∧
      (∀ r, reply = some r → r ∈ rule.sideReplies) ∧
      serve.getD rule.delivery ∈ rule.deliveries := by
  cases hchaos : rule.chaos with
  | none => exact ⟨none, none, rng, rfl, fun r hr => (by cases hr), List.mem_cons_self⟩
  | some entries =>
    have hdraw : drawFloat rng = .ok (rng.float, rng.next) := rfl
    rw [rollChaos, sampler_bind_of_ok hdraw, resolveChaos_eq]
    rcases resultAt_cases entries (selectedAt entries (rng.float * F64.ofNat 100)) with
      hnormal | ⟨entry, hmem, hentry⟩
    · rw [hnormal]
      exact ⟨none, none, rng.next, rfl, fun r hr => (by cases hr), List.mem_cons_self⟩
    · rw [hentry]
      refine ⟨entry.reply, entry.serve, rng.next, rfl, fun r hr => ?_, ?_⟩
      · rw [sideReplies, hchaos]
        exact List.mem_append_right _ (List.mem_filterMap.mpr ⟨entry, hmem, hr⟩)
      · rw [deliveries, hchaos]
        cases hserve : entry.serve with
        | none => exact List.mem_cons_self
        | some spec =>
          exact List.mem_cons_of_mem _ (List.mem_filterMap.mpr ⟨entry, hmem, hserve⟩)

namespace Handling

variable {x : External} {o : OverflowChecks} {addr : α} {req : Request} {out : Outside}

private theorem draw_fst {β : Type} (m : Sampler β) (st : RuleState α) (rng : Rng) :
    (draw m (st, rng)).1 = (m rng).toOption.map Prod.fst := by
  rw [draw_apply]
  cases m rng <;> rfl

private theorem checkPolicies_reject {spec : BehaviorSpec} {st : RuleState α} {rng : Rng}
    {reply : ReplySpec} (h : (checkPolicies spec out (st, rng)).1 = some (.reject reply)) :
    reply ∈ spec.overReplies := by
  simp only [checkPolicies, OptionT.mk] at h
  cases hrt : st.runtime with
  | none =>
    rw [hrt] at h
    cases h
  | some rt =>
    simp only [hrt] at h
    rcases hrate : rt.checkRate spec out.limiterNow with p | ⟨rt', _ | overReply⟩ <;>
      simp only [hrate] at h
    · cases h
    · rw [draw_apply] at h
      rcases hconc : rt'.checkConcurrency spec out.granted rng with p | ⟨verdict, rng'⟩ <;>
        rw [hconc] at h
      · cases h
      · obtain rfl := Option.some.inj h
        refine List.mem_append_right _ ?_
        rcases checkConcurrency_reject hconc with ⟨max, hover⟩ | ⟨max, timeout, hover, _⟩ <;>
          rw [hover] <;> exact List.mem_singleton_self _
    · cases h
      obtain ⟨rl, hrl, rfl⟩ := checkRate_reject hrate
      refine List.mem_append_left _ ?_
      rw [hrl]
      exact List.mem_singleton_self _

variable [DecidableEq α]

private theorem resolveStrategy_fst {strategy : ReplyStrategy} {st st' : RuleState α}
    (hcrud : st.crud = st'.crud) (hcalls : st.calls = st'.calls) (rng rng' : Rng) :
    (resolveStrategy x o strategy addr req out (st, rng)).1 =
      (resolveStrategy x o strategy addr req out (st', rng')).1 := by
  cases strategy with
  | static reply => rfl
  | sequence replies => simp only [resolveStrategy, OptionT.mk, hcalls]
  | crud spec headers =>
    simp only [resolveStrategy, OptionT.mk, hcrud]
    cases st'.crud <;> rfl

end Handling

inductive LiveRule.Course [DecidableEq α] (x : External) (o : OverflowChecks) (live : LiveRule α)
    (c : Call α) : Option Response → Prop
  | panics : (Handling.checkPolicies live.rule.behavior c.out (live.state, c.rng)).1 = none →
      Course x o live c none
  | rejects {reply : ReplySpec} : reply ∈ live.rule.behavior.overReplies →
      Course x o live c (buildReplyResponse x reply).toOption
  | delivers {reply : ReplySpec} {delivery : DeliverySpec} (permit : Bool) (rng : Rng) :
      live.MaySend x o c reply → delivery ∈ live.rule.deliveries →
      Course x o live c ((withTimeout live.rule.behavior.timeout
        (buildDeliveryResponse x reply delivery permit c.out) rng).toOption.map Prod.fst)
  | unresolved : (Handling.resolveStrategy x o live.rule.reply c.addr c.req c.out
      (live.state, c.rng)).1 = none → Course x o live c none
  | storeless : (Handling.resolveStrategy x o live.rule.reply c.addr c.req c.out
      (live.state, c.rng)).1 = some none → Course x o live c (some (.ofStatus 500))

namespace LiveRule

variable [DecidableEq α] {x : External} {o : OverflowChecks} {live : LiveRule α} {c : Call α}

private theorem course_of_resolve {st : RuleState α} (hcrud : st.crud = live.state.crud)
    (hcalls : st.calls = live.state.calls) (permit : Bool) (rng : Rng) :
    live.Course x o c
      (Handling.resolveAndDeliver x o live.rule c.addr c.req permit c.out (st, rng)).1 := by
  obtain ⟨chaosReply, serve, rng₁, hroll, hside, hdelivery⟩ := live.rule.rollChaos_ok rng
  rw [Handling.resolveAndDeliver, Handling.bind_apply, Handling.draw_apply, hroll]
  dsimp only
  cases chaosReply with
  | some reply =>
    dsimp only
    rw [Handling.draw_fst]
    exact .delivers permit rng₁ (.side (hside reply rfl)) hdelivery
  | none =>
    have hsame : (Handling.resolveStrategy x o live.rule.reply c.addr c.req c.out (st, rng₁)).1 =
        (Handling.resolveStrategy x o live.rule.reply c.addr c.req c.out (live.state, c.rng)).1 :=
      Handling.resolveStrategy_fst hcrud hcalls rng₁ c.rng
    dsimp only
    rw [Handling.bind_apply]
    rcases hresolve : Handling.resolveStrategy x o live.rule.reply c.addr c.req c.out (st, rng₁)
      with ⟨_ | _ | reply, st', rng₂⟩ <;> rw [hresolve] at hsame
    · exact .unresolved hsame.symm
    · exact .storeless hsame.symm
    · dsimp only
      rw [Handling.draw_fst]
      exact .delivers permit rng₂ (.own hsame.symm) hdelivery

theorem course_serve (x : External) (o : OverflowChecks) (live : LiveRule α) (c : Call α) :
    live.Course (x.withFiles c.files) o c (live.serve x o c).2 := by
  change live.Course (x.withFiles c.files) o c (Handling.handleMatched (x.withFiles c.files) o
    live.rule c.addr c.req c.out (live.state, c.rng)).1
  have hchecks := Handling.checks_checkPolicies live.rule.behavior c.out live.state c.rng
  rw [Handling.handleMatched, Handling.bind_apply]
  rcases hcheck : Handling.checkPolicies live.rule.behavior c.out (live.state, c.rng) with
    ⟨_ | verdict, st, rng⟩ <;> rw [hcheck] at hchecks
  · exact .panics (congrArg Prod.fst hcheck)
  · have hcrud : st.crud = live.state.crud := by
      rcases hchecks with rfl | ⟨_, _, _, _, _, rfl⟩ <;> rfl
    have hcalls : st.calls = live.state.calls := by
      rcases hchecks with rfl | ⟨_, _, _, _, _, rfl⟩ <;> rfl
    cases verdict with
    | proceed permit => exact course_of_resolve hcrud hcalls permit rng
    | reject reply =>
      have hover := Handling.checkPolicies_reject (congrArg Prod.fst hcheck)
      have hbuild : (Handling.draw (liftPanic (buildReplyResponse (x.withFiles c.files) reply))
          (st, rng)).1 = (buildReplyResponse (x.withFiles c.files) reply).toOption := by
        rw [Handling.draw_fst, liftPanic]
        cases buildReplyResponse (x.withFiles c.files) reply <;> rfl
      dsimp only
      rw [hbuild]
      exact .rejects hover

end LiveRule

end Mockinx
