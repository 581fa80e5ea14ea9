import Mockinx.Server.Handler

/-!
Which rules can make the handler generate the body of a request echo that was never resolved. The
reply of the rule's own strategy is resolved first; the replies of the limits and of the chaos
entries are sent as they are.
-/

set_option autoImplicit false
set_option relaxedAutoImplicit false

namespace Mockinx

open Lib

def Avoids {α : Type} (p : Panic) (m : Sampler α) : Prop := ∀ rng, m rng ≠ .error p

section Avoids

variable {α β : Type} {p : Panic}

private theorem avoids_pure (a : α) : Avoids p (pure a : Sampler α) := by
  intro rng h
  cases h

private theorem bind_ne_error {m : Sampler α} {f : α → Sampler β} (hm : Avoids p m) {rng : Rng}
    (hf : ∀ a rng', m rng = .ok (a, rng') → f a rng' ≠ .error p) : (m >>= f) rng ≠ .error p := by
  cases h : m rng with
  | error q =>
    rw [sampler_bind_of_error h]
    exact fun heq => hm rng (h.trans (congrArg Except.error (Except.error.inj heq)))
  | ok r =>
    obtain ⟨a, rng'⟩ := r
    rw [sampler_bind_of_ok h]
    exact hf a rng' h

private theorem avoids_bind {m : Sampler α} {f : α → Sampler β} (hm : Avoids p m)
    (hf : ∀ a, Avoids p (f a)) : Avoids p (m >>= f) :=
  fun _ => bind_ne_error hm fun a rng' _ => hf a rng'

private theorem avoids_liftPanic {r : Except Panic α} (h : r ≠ .error p) :
    Avoids p (liftPanic r) := by
  intro rng hr
  cases r with
  | error q =>
    obtain rfl : q = p := by simpa [liftPanic, Except.map] using hr
    exact h rfl
  | ok a => simp [liftPanic, Except.map] at hr

private theorem map_ne_error {r : Except Panic α} (f : α → β) (h : r ≠ .error p) :
    r.map f ≠ .error p := by
  cases r with
  | error q => simpa [Except.map] using h
  | ok a => simp [Except.map]

private theorem avoids_drawFloat : Avoids p drawFloat := by
  intro rng h
  cases h

private theorem avoids_sample [Scalable α]
    (h : ∀ (a b : α) (t : F64), Scalable.lerp a b t ≠ .error p)
    (r : Range α) : Avoids p r.sample := by
  cases r with
  | fixed v => exact avoids_pure v
  | minMax min max => exact avoids_bind avoids_drawFloat fun t => avoids_liftPanic (h min max t)

end Avoids

private theorem fromSecsF64_ne_reflect (q : F64) : fromSecsF64 q ≠ .error reflectUnreachable := by
  rw [fromSecsF64]
  split <;> simp [reflectUnreachable]

private theorem avoids_sampleDuration (r : Range Duration) : Avoids reflectUnreachable r.sample :=
  avoids_sample (fun _ _ _ => fromSecsF64_ne_reflect _) r

private theorem avoids_sampleBytes (r : Range ByteSize) :
    Avoids reflectUnreachable (sampleBytes r) :=
  avoids_bind (avoids_sample (fun _ _ _ => by simp [Scalable.lerp]) r) fun _ => avoids_pure _

private theorem avoids_sampleDeadline (now : Instant) (r : Range Duration) :
    Avoids reflectUnreachable (sampleDeadline now r) := by
  refine avoids_bind (avoids_sampleDuration r) fun d => avoids_liftPanic ?_
  rw [addInstant]
  split <;> simp [reflectUnreachable]

private theorem avoids_samplePace (len : ℕ) (pace : Option PaceSpec) :
    Avoids reflectUnreachable (samplePace len pace) := by
  unfold samplePace
  split
  · exact avoids_bind (avoids_sampleBytes _) fun _ =>
      avoids_bind (avoids_sampleDuration _) fun _ => avoids_pure _
  · refine avoids_bind (avoids_sampleDuration _) fun d => ?_
    dsimp only
    split_ifs
    · refine avoids_bind (avoids_liftPanic ?_) fun _ => avoids_pure _
      rw [divDuration]
      split <;> simp [reflectUnreachable]
    · exact avoids_pure _
  · refine avoids_bind (avoids_sample (fun _ _ _ => by simp [Scalable.lerp]) _) fun speed => ?_
    dsimp only
    split_ifs
    · exact avoids_pure _
    · exact avoids_bind (avoids_liftPanic (fromSecsF64_ne_reflect _)) fun _ => avoids_pure _
  · exact avoids_pure _

private theorem avoids_deliver (body : List UInt8) (spec : DeliverySpec)
    (dropNow hangNow : Instant) :
    Avoids reflectUnreachable (deliver body spec dropNow hangNow) := by
  rw [deliver]
  refine avoids_bind ?_ fun _ => avoids_bind ?_ fun _ => avoids_bind ?_ fun _ =>
    avoids_bind (avoids_samplePace _ _) fun _ => avoids_pure _
  · simp only [sampleFirstByte]
    split
    · exact avoids_bind (avoids_sampleDuration _) fun _ => avoids_pure _
    · exact avoids_pure _
  · simp only [sampleDrop]
    split
    · exact avoids_bind (avoids_sampleBytes _) fun _ => avoids_pure _
    · exact avoids_bind (avoids_sampleDeadline _ _) fun _ => avoids_pure _
    · exact avoids_pure _
  · simp only [sampleHang]
    split
    · exact avoids_bind (avoids_sampleBytes _) fun _ => avoids_pure _
    · exact avoids_bind (avoids_sampleDeadline _ _) fun _ => avoids_pure _
    · exact avoids_pure _

private theorem buildReplyResponse_ne_reflect {x : External} {reply : ReplySpec}
    (h : reply.body.isReflect = false) :
    buildReplyResponse x reply ≠ .error reflectUnreachable := by
  have hbody : generateBody x reply.body ≠ .error reflectUnreachable := by
    rw [ne_eq, generateBody_unreachable_iff, h]
    exact Bool.false_ne_true
  exact map_ne_error _ hbody

private theorem avoids_buildDeliveryResponse {x : External} {reply : ReplySpec}
    (h : reply.body.isReflect = false) (delivery : DeliverySpec) (permit : Bool) (out : Outside) :
    Avoids reflectUnreachable (buildDeliveryResponse x reply delivery permit out) := by
  rw [buildDeliveryResponse]
  refine avoids_bind (avoids_liftPanic ?_) fun bytes => ?_
  · rw [ne_eq, generateBody_unreachable_iff, h]
    exact Bool.false_ne_true
  · split_ifs
    · exact avoids_liftPanic (buildReplyResponse_ne_reflect h)
    · exact avoids_bind (avoids_deliver _ _ _ _) fun _ => avoids_pure _

def Drawable (r : Range Duration) : Prop := ∃ rng d rng', r.sample rng = .ok (d, rng')

private theorem avoids_withTimeout {timeout : Option (Range Duration)} {inner : Sampler Response}
    (h : (∀ range, timeout = some range → Drawable range) → Avoids reflectUnreachable inner) :
    Avoids reflectUnreachable (withTimeout timeout inner) := by
  cases timeout with
  | none => exact h nofun
  | some range =>
    intro rng
    refine bind_ne_error (avoids_sampleDuration range) fun d rng' hd => ?_
    refine h ?_ rng'
    rintro _ ⟨⟩
    exact ⟨rng, d, rng', hd⟩

theorem resolveReflect_isReflect (x : External) (reply : ReplySpec) (req : Request) :
    (resolveReflect x reply req).body.isReflect = false := by
  rw [resolveReflect]
  split
  · rfl
  · rename_i hbody
    cases hb : reply.body with
    | reflect fields => exact absurd hb (hbody fields)
    | _ => rfl

private theorem succ_ne_reflect (o : OverflowChecks) (n : UInt64) :
    o.succ n ≠ .error reflectUnreachable := by
  simp only [OverflowChecks.succ]
  split_ifs
  · simp
  · cases o <;> simp [reflectUnreachable]

private theorem apply_ne_reflect (o : OverflowChecks) (s : CrudStore) (op : CrudOp) :
    s.apply o op ≠ .error reflectUnreachable := by
  cases op with
  | create uuid body =>
    rw [CrudStore.apply, CrudStore.create_eq]
    refine map_ne_error _ ?_
    rw [CrudStore.nextIdAfter]
    split_ifs
    · simp
    · exact succ_ne_reflect o _
  | _ => simp [CrudStore.apply]

private theorem resolveStrategy_ne_reflect (x : External) (o : OverflowChecks)
    (strategy : ReplyStrategy) (crud : Option CrudStore) (req : Request) (out : Outside) :
    resolveStrategy x o strategy crud req out ≠ .error reflectUnreachable := by
  simp only [resolveStrategy]
  split
  · simp
  · split <;> simp [reflectUnreachable]
  · split
    · exact map_ne_error _ (map_ne_error _ (apply_ne_reflect o _ _))
    · simp

private theorem avoids_rollChaos (chaos : Option (List (ChaosEntry F64))) :
    Avoids reflectUnreachable (rollChaos chaos) := by
  simp only [rollChaos]
  split
  · refine avoids_bind avoids_drawFloat fun roll => ?_
    split <;> exact avoids_pure _
  · exact avoids_pure _

private theorem tryAcquire_ne_reflect (l : RateLimiter) (now : Instant) :
    l.tryAcquire now ≠ .error reflectUnreachable := by
  rw [RateLimiter.tryAcquire]
  split
  · simp [reflectUnreachable]
  · dsimp only
    split_ifs <;> simp

private theorem checkRate_ne_reflect (rt : BehaviorRuntime) (spec : BehaviorSpec) (now : Instant) :
    rt.checkRate spec now ≠ .error reflectUnreachable := by
  rw [BehaviorRuntime.checkRate]
  split
  · exact map_ne_error _ (tryAcquire_ne_reflect _ now)
  · simp

private theorem avoids_checkConcurrency (rt : BehaviorRuntime) (spec : BehaviorSpec)
    (granted : Bool) :
    Avoids reflectUnreachable (rt.checkConcurrency spec granted) := by
  rw [BehaviorRuntime.checkConcurrency]
  split
  · split
    · exact avoids_pure _
    · exact avoids_pure _
    · exact avoids_bind (avoids_sampleDuration _) fun _ => avoids_pure _
  · exact avoids_pure _

private theorem avoids_check (rt : BehaviorRuntime) (spec : BehaviorSpec) (now : Instant)
    (granted : Bool) : Avoids reflectUnreachable (rt.check spec now granted) := by
  rw [BehaviorRuntime.check]
  refine avoids_bind (avoids_liftPanic (checkRate_ne_reflect rt spec now)) fun r => ?_
  dsimp only
  split
  · exact avoids_pure _
  · exact avoids_bind (avoids_checkConcurrency _ _ _) fun _ => avoids_pure _

private theorem avoids_checkPolicies (runtime : Option BehaviorRuntime) (spec : BehaviorSpec)
    (out : Outside) : Avoids reflectUnreachable (checkPolicies runtime spec out) := by
  simp only [checkPolicies]
  split
  · exact avoids_bind (avoids_check _ _ _ _) fun _ => avoids_pure _
  · exact avoids_pure _

/-- No outcome of the limits, of the chaos roll and of the other inputs makes the handler of a rule
generate the body of a request echo. The runtime is any: a replacement can put that of another rule
under the index, or leave none. -/
def ReflectSafe (x : External) (o : OverflowChecks) (rule : Rule) : Prop :=
  ∀ runtime crud req out,
    Avoids reflectUnreachable (handleMatched x o rule runtime crud req out)

def chaosAt (entries : List (ChaosEntry F64)) (draw : Fin (2 ^ 53)) : ChaosResult :=
  resolveChaos entries (F64.ofRat ((draw : ℕ) / (2 ^ 53 : ℕ)) * F64.ofNat 100)

/-- The limits and the chaos entries of a rule have no request echo that can be sent: not in the
reply over the rate, nor in the reply over the concurrency limit, nor in a chaos reply that some
draw selects. A reply that is sent only after a draw from a range that always panics is exempt. -/
structure ReflectConfined (rule : Rule) : Prop where
  rate : ∀ rl, rule.behavior.rateLimit = some rl → rl.«over».body.isReflect = false
  overReply : ∀ max reply, rule.behavior.concurrency = some ⟨max, .reply reply⟩ →
    reply.body.isReflect = false
  overThen : ∀ max timeout reply,
    rule.behavior.concurrency = some ⟨max, .blockWithTimeout timeout reply⟩ → Drawable timeout →
      reply.body.isReflect = false
  chaos : ∀ entries draw reply serve, rule.chaos = some entries →
    chaosAt entries draw = .override (some reply) serve →
      (∀ timeout, rule.behavior.timeout = some timeout → Drawable timeout) →
        reply.body.isReflect = false

theorem checkRate_reject {rt rt' : BehaviorRuntime} {spec : BehaviorSpec} {now : Instant}
    {reply : ReplySpec} (h : rt.checkRate spec now = .ok (rt', some reply)) :
    ∃ rl, spec.rateLimit = some rl ∧ rl.«over» = reply := by
  rw [BehaviorRuntime.checkRate] at h
  split at h
  · rename_i limiter rl _ hrl
    cases ht : limiter.tryAcquire now with
    | error p => simp [ht, Except.map] at h
    | ok r =>
      simp only [ht, Except.map, Except.ok.injEq, Prod.mk.injEq] at h
      obtain ⟨_, hover⟩ := h
      split_ifs at hover
      exact ⟨rl, hrl, Option.some.inj hover⟩
  · simp at h

theorem checkConcurrency_reject {rt : BehaviorRuntime} {spec : BehaviorSpec} {granted : Bool}
    {rng rng' : Rng} {reply : ReplySpec}
    (h : rt.checkConcurrency spec granted rng = .ok (.reject reply, rng')) :
    (∃ max, spec.concurrency = some ⟨max, .reply reply⟩) ∨
      ∃ max timeout, spec.concurrency = some ⟨max, .blockWithTimeout timeout reply⟩ ∧
        Drawable timeout := by
  rw [BehaviorRuntime.checkConcurrency] at h
  cases hsem : rt.semaphore with
  | none =>
    rw [hsem] at h
    cases (sampler_pure_ok.mp h).1
  | some permits =>
    cases hconc : spec.concurrency with
    | none =>
      rw [hsem, hconc] at h
      cases (sampler_pure_ok.mp h).1
    | some conc =>
      obtain ⟨max, action⟩ := conc
      rw [hsem, hconc] at h
      cases action with
      | reply r =>
        have hverdict := (sampler_pure_ok.mp h).1
        split_ifs at hverdict
        obtain rfl := BehaviorResult.reject.inj hverdict
        exact Or.inl ⟨max, rfl⟩
      | block => cases (sampler_pure_ok.mp h).1
      | blockWithTimeout timeout andThen =>
        obtain ⟨d, rng₁, hd, h⟩ := sampler_bind_ok.mp h
        have hverdict := (sampler_pure_ok.mp h).1
        split_ifs at hverdict
        obtain rfl := BehaviorResult.reject.inj hverdict
        exact Or.inr ⟨max, timeout, rfl, rng, d, rng₁, hd⟩

private theorem rejected_cases {runtime rt : Option BehaviorRuntime} {spec : BehaviorSpec}
    {out : Outside} {rng rng' : Rng} {reply : ReplySpec}
    (h : checkPolicies runtime spec out rng = .ok ((rt, .reject reply), rng')) :
    (∃ rl, spec.rateLimit = some rl ∧ rl.«over» = reply) ∨
      (∃ max, spec.concurrency = some ⟨max, .reply reply⟩) ∨
      ∃ max timeout, spec.concurrency = some ⟨max, .blockWithTimeout timeout reply⟩ ∧
        Drawable timeout := by
  simp only [checkPolicies] at h
  split at h
  · obtain ⟨⟨rt₁, verdict⟩, rng₁, hcheck, h⟩ := sampler_bind_ok.mp h
    obtain ⟨heq, _⟩ := sampler_pure_ok.mp h
    obtain ⟨_, rfl⟩ := Prod.mk.inj heq
    rw [BehaviorRuntime.check] at hcheck
    obtain ⟨⟨rt₂, overReply⟩, rng₂, hrate, hcheck⟩ := sampler_bind_ok.mp hcheck
    cases overReply with
    | some r =>
      obtain ⟨heq, _⟩ := sampler_pure_ok.mp hcheck
      obtain rfl := BehaviorResult.reject.inj (Prod.mk.inj heq).2
      exact Or.inl (checkRate_reject (liftPanic_ok.mp hrate).1)
    | none =>
      obtain ⟨verdict, rng₃, hconc, hcheck⟩ := sampler_bind_ok.mp hcheck
      obtain ⟨heq, _⟩ := sampler_pure_ok.mp hcheck
      obtain rfl := (Prod.mk.inj heq).2
      exact Or.inr (checkConcurrency_reject hconc)
  · obtain ⟨heq, _⟩ := sampler_pure_ok.mp h
    cases (Prod.mk.inj heq).2

private theorem rollChaos_cases {chaos : Option (List (ChaosEntry F64))} {rng rng' : Rng}
    {reply : ReplySpec} {serve : Option DeliverySpec}
    (h : rollChaos chaos rng = .ok ((some reply, serve), rng')) :
    ∃ entries draw, chaos = some entries ∧
      chaosAt entries draw = .override (some reply) serve := by
  simp only [rollChaos] at h
  split at h
  · rename_i entries
    obtain ⟨roll, rng₁, hroll, h⟩ := sampler_bind_ok.mp h
    obtain ⟨rfl, _⟩ : rng.float = roll ∧ _ := by simpa [drawFloat] using hroll
    refine ⟨entries, rng.draw 0, rfl, ?_⟩
    cases hc : resolveChaos entries (rng.float * F64.ofNat 100) with
    | normal =>
      rw [hc] at h
      cases (sampler_pure_ok.mp h).1
    | override r d =>
      rw [hc] at h
      obtain ⟨rfl, rfl⟩ := Prod.mk.inj (sampler_pure_ok.mp h).1
      exact hc
  · cases (sampler_pure_ok.mp h).1

private theorem reflectSafe_of_confined {x : External} {o : OverflowChecks} {rule : Rule}
    (h : ReflectConfined rule) : ReflectSafe x o rule := by
  intro runtime crud req out rng
  rw [handleMatched]
  refine bind_ne_error (avoids_checkPolicies _ _ _) ?_
  rintro ⟨rt, verdict⟩ rng' hverdict
  cases verdict with
  | reject reply =>
    have hreply : reply.body.isReflect = false := by
      rcases rejected_cases hverdict with ⟨rl, hrl, rfl⟩ | ⟨max, hmax⟩ | ⟨max, timeout, hmax, ht⟩
      · exact h.rate rl hrl
      · exact h.overReply max reply hmax
      · exact h.overThen max timeout reply hmax ht
    exact avoids_bind (avoids_liftPanic (buildReplyResponse_ne_reflect hreply))
      (fun _ => avoids_pure _) rng'
  | proceed permit =>
    refine avoids_bind ?_ (fun _ => avoids_pure _) rng'
    intro rng
    rw [resolveAndDeliver]
    refine bind_ne_error (avoids_rollChaos _) ?_
    rintro ⟨chaosReply, chaosDelivery⟩ rng' hroll
    cases chaosReply with
    | some reply =>
      obtain ⟨entries, draw, hentries, hdraw⟩ := rollChaos_cases hroll
      refine avoids_bind (avoids_withTimeout fun ht => ?_) (fun _ => avoids_pure _) rng'
      exact avoids_buildDeliveryResponse (h.chaos entries draw reply _ hentries hdraw ht) _ _ _
    | none =>
      refine avoids_bind (avoids_liftPanic (resolveStrategy_ne_reflect _ _ _ _ _ _)) ?_ rng'
      rintro ⟨crud, reply⟩
      cases reply with
      | none => exact avoids_pure _
      | some reply =>
        refine avoids_bind (avoids_withTimeout fun _ => ?_) fun _ => avoids_pure _
        exact avoids_buildDeliveryResponse (resolveReflect_isReflect x reply req) _ _ _

private theorem buildReplyResponse_reflect {x : External} {reply : ReplySpec}
    (h : reply.body.isReflect = true) :
    buildReplyResponse x reply = .error reflectUnreachable := by
  rw [buildReplyResponse, generateBody_unreachable_iff.mpr h]
  rfl

private theorem buildDeliveryResponse_reflect {x : External} {reply : ReplySpec}
    (h : reply.body.isReflect = true) (delivery : DeliverySpec) (permit : Bool) (out : Outside)
    (rng : Rng) :
    buildDeliveryResponse x reply delivery permit out rng = .error reflectUnreachable :=
  sampler_bind_of_error (liftPanic_error (generateBody_unreachable_iff.mpr h) rng)

private theorem handleMatched_of_reject {x : External} {o : OverflowChecks} {rule : Rule}
    {runtime rt : Option BehaviorRuntime} {crud : Option CrudStore} {req : Request} {out : Outside}
    {rng rng' : Rng} {reply : ReplySpec}
    (h : checkPolicies runtime rule.behavior out rng = .ok ((rt, .reject reply), rng'))
    (hreply : reply.body.isReflect = true) :
    handleMatched x o rule runtime crud req out rng = .error reflectUnreachable := by
  rw [handleMatched, sampler_bind_of_ok h]
  exact sampler_bind_of_error (liftPanic_error (buildReplyResponse_reflect hreply) rng')

private theorem handleMatched_of_chaos {x : External} {o : OverflowChecks} {rule : Rule}
    {crud : Option CrudStore} {req : Request} {out : Outside} {rng rng' : Rng} {reply : ReplySpec}
    {serve : Option DeliverySpec}
    (h : rollChaos rule.chaos rng = .ok ((some reply, serve), rng'))
    (htime : ∀ range, rule.behavior.timeout = some range →
      ∃ d rng'', range.sample rng' = .ok (d, rng''))
    (hreply : reply.body.isReflect = true) :
    handleMatched x o rule none crud req out rng = .error reflectUnreachable := by
  have hbuild := fun rng => buildDeliveryResponse_reflect (x := x) hreply
    (serve.getD rule.delivery) false out rng
  have htimed : withTimeout rule.behavior.timeout
      (buildDeliveryResponse x reply (serve.getD rule.delivery) false out) rng' =
      .error reflectUnreachable := by
    cases ht : rule.behavior.timeout with
    | none => exact hbuild rng'
    | some range =>
      obtain ⟨d, rng'', hd⟩ := htime range ht
      rw [withTimeout, sampler_bind_of_ok hd]
      exact hbuild rng''
  have hdeliver : resolveAndDeliver x o rule crud req false out rng =
      .error reflectUnreachable := by
    rw [resolveAndDeliver, sampler_bind_of_ok h]
    exact sampler_bind_of_error htimed
  have hverdict : checkPolicies none rule.behavior out rng =
      .ok ((none, .proceed false), rng) := rfl
  rw [handleMatched, sampler_bind_of_ok hverdict]
  exact sampler_bind_of_error hdeliver

private theorem checkPolicies_of_check {rt rt' : BehaviorRuntime} {spec : BehaviorSpec}
    (out : Outside) {rng rng' : Rng} {verdict : BehaviorResult}
    (h : rt.check spec out.limiterNow out.granted rng = .ok ((rt', verdict), rng')) :
    checkPolicies (some rt) spec out rng = .ok ((some rt', verdict), rng') := by
  rw [checkPolicies, sampler_bind_of_ok h]
  rfl

private theorem checkRate_of_full {spec : BehaviorSpec} {rl : RateLimitSpec}
    (h : spec.rateLimit = some rl) :
    ∃ rt, BehaviorRuntime.checkRate { semaphore := none, rateLimiter := some (.new 0) } spec
      .zero = .ok (rt, some rl.«over») := by
  rw [BehaviorRuntime.checkRate, h]
  exact ⟨_, rfl⟩

def unlucky : Outside where
  limiterNow := .zero
  granted := false
  callIdx := 0
  uuid := ""
  dropNow := .zero
  hangNow := .zero

private theorem checkPolicies_of_concurrency {spec : BehaviorSpec} {rng rng' : Rng}
    {verdict : BehaviorResult}
    (h : BehaviorRuntime.checkConcurrency { semaphore := some 0, rateLimiter := none } spec false
      rng = .ok (verdict, rng')) :
    ∃ rt, checkPolicies (some { semaphore := some 0, rateLimiter := none }) spec unlucky rng =
      .ok ((rt, verdict), rng') :=
  ⟨_, checkPolicies_of_check unlucky (BehaviorRuntime.check_of_concurrency rfl h)⟩

private theorem confined_of_reflectSafe {x : External} {o : OverflowChecks} {rule : Rule}
    (h : ReflectSafe x o rule) : ReflectConfined rule where
  rate rl hrl := by
    by_contra hreply
    obtain ⟨rt, hrate⟩ := checkRate_of_full hrl
    have hverdict := checkPolicies_of_check unlucky
      (BehaviorRuntime.check_of_rate hrate false ⟨fun _ => 0⟩)
    exact h _ none default unlucky _ (handleMatched_of_reject hverdict (by simpa using hreply))
  overReply max reply hmax := by
    by_contra hreply
    have hover : BehaviorRuntime.checkConcurrency { semaphore := some 0, rateLimiter := none }
        rule.behavior false ⟨fun _ => 0⟩ = .ok (.reject reply, ⟨fun _ => 0⟩) := by
      rw [BehaviorRuntime.checkConcurrency, hmax]
      rfl
    obtain ⟨rt, hverdict⟩ := checkPolicies_of_concurrency hover
    exact h _ none default unlucky _ (handleMatched_of_reject hverdict (by simpa using hreply))
  overThen max timeout reply hmax hdraw := by
    by_contra hreply
    obtain ⟨rng, d, rng', hd⟩ := hdraw
    have hover : BehaviorRuntime.checkConcurrency { semaphore := some 0, rateLimiter := none }
        rule.behavior false rng = .ok (.reject reply, rng') := by
      rw [BehaviorRuntime.checkConcurrency, hmax]
      exact sampler_bind_of_ok hd
    obtain ⟨rt, hverdict⟩ := checkPolicies_of_concurrency hover
    exact h _ none default unlucky _ (handleMatched_of_reject hverdict (by simpa using hreply))
  chaos entries draw reply serve hentries hdraw htime := by
    by_contra hreply
    -- the first draw is the roll, and the later ones let the timeout be drawn
    have hrng : ∃ rng : Rng, rng.draw 0 = draw ∧ ∀ range, rule.behavior.timeout = some range →
        ∃ d rng', range.sample rng.next = .ok (d, rng') := by
      cases ht : rule.behavior.timeout with
      | none => exact ⟨⟨fun _ => draw⟩, rfl, nofun⟩
      | some range =>
        obtain ⟨rng, d, rng', hd⟩ := htime range ht
        refine ⟨⟨fun n => n.casesOn draw rng.draw⟩, rfl, ?_⟩
        rintro _ ⟨⟩
        exact ⟨d, rng', hd⟩
    obtain ⟨rng, rfl, hrange⟩ := hrng
    have hroll : rollChaos rule.chaos rng = .ok ((some reply, serve), rng.next) := by
      rw [hentries, rollChaos]
      have hfloat : drawFloat rng = .ok (rng.float, rng.next) := rfl
      refine (sampler_bind_of_ok hfloat).trans ?_
      rw [show resolveChaos entries (rng.float * F64.ofNat 100) = _ from hdraw]
      rfl
    exact h none none default unlucky rng
      (handleMatched_of_chaos hroll hrange (by simpa using hreply))

/-- A rule is safe exactly when no request echo stands where a reply is sent unresolved. -/
theorem reflect_safe_iff (x : External) (o : OverflowChecks) (rule : Rule) :
    ReflectSafe x o rule ↔ ReflectConfined rule :=
  ⟨confined_of_reflectSafe, reflectSafe_of_confined⟩

/-- A rule with a rate limit of zero whose over reply is a request echo is accepted. -/
theorem accepted_rule_not_reflectSafe :
    ¬ ∀ x o v baseDir rules, parseRules x v baseDir = .ok rules →
      ∀ rule ∈ rules, ReflectSafe x o rule := by
  intro h
  let echo : Value := .obj [("b", .obj [("reflect!", .bool true)] (by decide))] (by decide)
  let rps : Value := .obj [("max", .ofNat 0), ("over", echo)] (by decide)
  let v : Value := .obj [("match", .string "_"), ("reply", .obj [] (by decide)),
    ("serve", .obj [("rps", rps)] (by decide))] (by decide)
  obtain ⟨rule, hrule, hover⟩ : ∃ rule, parseRules default v none = .ok [rule] ∧
      ∃ rl, rule.behavior.rateLimit = some rl ∧ rl.«over».body.isReflect = true :=
    ⟨_, rfl, _, rfl, rfl⟩
  obtain ⟨rl, hrl, hecho⟩ := hover
  have hsafe := h default .checked v none [rule] hrule rule (by simp)
  simp [(confined_of_reflectSafe hsafe).rate rl hrl] at hecho

end Mockinx
