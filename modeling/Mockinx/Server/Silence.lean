import Mockinx.Server.Answering
import Mockinx.Server.OwnObjects
import Mockinx.Server.RateHeld

/-!
When the handler of a request panics. A rule that the parser accepts does not make it panic, but for
a few reasons that all lie outside what the parser checks.
-/

set_option autoImplicit false
set_option relaxedAutoImplicit false

namespace Mockinx

open Lib Lib.Run

variable {α : Type}

/-- Why the handler of a request may panic. -/
inductive LiveRule.Silenced [DecidableEq α] (x : External) (o : OverflowChecks) (live : LiveRule α)
    (c : Call α) : Prop
  /-- The rate limiter has no instant a second before the request. -/
  | clock {rl : RateLimitSpec} : live.rule.behavior.rateLimit = some rl →
      c.out.limiterNow.checkedSub oneSecond = none → Silenced x o live c
  /-- The calls of a sequence are no longer counted. -/
  | calls {replies : List ReplySpec} : live.rule.reply = .sequence replies →
      (live.state.calls.nextCallFor o c.addr).2 = none → Silenced x o live c
  /-- A resource has run out of ids. -/
  | ids {store : LockedStore} : live.state.crud = some store →
      (store.poisoned = true ∨ ∃ p, store.store.nextIdAfter o = .error p) → Silenced x o live c
  /-- A reply of the limits or of a chaos entry is an echo of the request. -/
  | echo {reply : ReplySpec} : reply ∈ live.rule.sideReplies → reply.body.isReflect = true →
      Silenced x o live c
  /-- A drop or a hang lies past the end of the clock. -/
  | times {delivery : DeliverySpec} {rng rng' : Rng} {dropTime hangTime : Option Duration} :
      delivery ∈ live.rule.deliveries →
      sampleTimes delivery rng = .ok ((dropTime, hangTime), rng') →
      ¬ (InReach c.out.dropNow dropTime ∧ InReach c.out.hangNow hangTime) → Silenced x o live c
  /-- A body is longer than a pace can deal with. -/
  | size {reply : ReplySpec} {bytes : List UInt8} : MaySend x o live c reply →
      generateBody x reply.body = .ok bytes → 2 ^ 45 ≤ bytes.length → Silenced x o live c

private theorem withTimeout_eq {timeout : Option (Range Duration)}
    (h : ∀ range, timeout = some range → range.FromSecs) (inner : Sampler Response) (rng : Rng) :
    ∃ rng', withTimeout timeout inner rng = inner rng' := by
  cases timeout with
  | none => exact ⟨rng, rfl⟩
  | some range =>
    obtain ⟨d, rng', hd⟩ := (h range rfl).sample_ok rng
    exact ⟨rng', sampler_bind_of_ok hd⟩

private theorem buildDeliveryResponse_error {x : External} {reply : ReplySpec} {bytes : List UInt8}
    (hbytes : generateBody x reply.body = .ok bytes) {delivery : DeliverySpec}
    (hdelivery : delivery.FromSecs) {permit : Bool} {out : Outside} {rng : Rng} {p : Panic}
    (h : buildDeliveryResponse x reply delivery permit out rng = .error p) :
    2 ^ 45 ≤ bytes.length ∨ ∃ dropTime hangTime rng',
      sampleTimes delivery rng = .ok ((dropTime, hangTime), rng') ∧
        ¬ (InReach out.dropNow dropTime ∧ InReach out.hangNow hangTime) := by
  rw [buildDeliveryResponse, sampler_bind_of_ok (liftPanic_ok.mpr ⟨hbytes, rfl⟩)] at h
  split_ifs at h with hplain
  · rw [buildReplyResponse, hbytes] at h
    cases h
  · obtain ⟨dropTime, hangTime, rng', htimes, hiff, _⟩ :=
      deliver_starts_iff hdelivery bytes out.dropNow out.hangNow rng
    by_cases hlen : bytes.length < 2 ^ 45
    · refine Or.inr ⟨dropTime, hangTime, rng', htimes, ?_⟩
      rintro ⟨hdrop, hhang⟩
      obtain ⟨s, rng₂, hs⟩ := hiff.mpr ⟨hdrop, hhang, gapsFit_of_lt hlen delivery.pace⟩
      rw [sampler_bind_of_ok hs] at h
      cases h
    · exact Or.inl (Nat.le_of_not_lt hlen)

private theorem BehaviorRuntime.checkConcurrency_ok (rt : BehaviorRuntime) {spec : BehaviorSpec}
    (hwaits : ∀ wait ∈ spec.waits, wait.FromSecs) (granted : Bool) (rng : Rng) :
    ∃ r, rt.checkConcurrency spec granted rng = .ok r := by
  rw [checkConcurrency]
  rcases rt.semaphore with _ | permits
  · exact ⟨_, rfl⟩
  · rcases hconc : spec.concurrency with _ | ⟨max, reply | _ | ⟨timeout, andThen⟩⟩
    · exact ⟨_, rfl⟩
    · exact ⟨_, rfl⟩
    · exact ⟨_, rfl⟩
    · have hmem : timeout ∈ spec.waits := by
        rw [BehaviorSpec.waits, hconc]
        exact List.mem_append_right _ (List.mem_singleton_self _)
      obtain ⟨d, rng', hd⟩ := (hwaits timeout hmem).sample_ok rng
      exact ⟨_, sampler_bind_of_ok hd⟩

namespace Handling

variable {x : External} {o : OverflowChecks} {addr : α} {req : Request} {out : Outside}

private theorem checkPolicies_none {spec : BehaviorSpec}
    (hwaits : ∀ wait ∈ spec.waits, wait.FromSecs)
    {st : RuleState α} {rng : Rng} (h : (checkPolicies spec out (st, rng)).1 = none) :
    (∃ rl, spec.rateLimit = some rl) ∧ out.limiterNow.checkedSub oneSecond = none := by
  simp only [checkPolicies, OptionT.mk] at h
  cases hrt : st.runtime with
  | none =>
    rw [hrt] at h
    cases h
  | some rt =>
    simp only [hrt] at h
    rcases hrate : rt.checkRate spec out.limiterNow with p | ⟨rt', _ | reply⟩ <;>
      simp only [hrate] at h
    · rw [BehaviorRuntime.checkRate] at hrate
      split at hrate
      · rename_i limiter rl _ hrl
        refine ⟨⟨rl, hrl⟩, ?_⟩
        rcases hacq : limiter.tryAcquire out.limiterNow with q | r <;> rw [hacq] at hrate
        · rw [RateLimiter.tryAcquire] at hacq
          split at hacq
          · assumption
          · dsimp only at hacq
            split_ifs at hacq
        · cases hrate
      · cases hrate
    · obtain ⟨r, hr⟩ := rt'.checkConcurrency_ok hwaits out.granted rng
      rw [draw_apply, hr] at h
      cases h
    · cases h

variable [DecidableEq α]

private theorem resolveStrategy_none {strategy : ReplyStrategy} (hne : strategy ≠ .sequence [])
    {st : RuleState α} {rng : Rng}
    (h : (resolveStrategy x o strategy addr req out (st, rng)).1 = none) :
    (∃ replies, strategy = .sequence replies ∧ (st.calls.nextCallFor o addr).2 = none) ∨
      ∃ store, st.crud = some store ∧
        (store.poisoned = true ∨ ∃ p, store.store.nextIdAfter o = .error p) := by
  cases strategy with
  | static reply => cases h
  | sequence replies =>
    refine Or.inl ⟨replies, rfl, ?_⟩
    have hpos : 0 < replies.length :=
      List.length_pos_iff.mpr fun hnil => hne (congrArg ReplyStrategy.sequence hnil)
    simp only [resolveStrategy, OptionT.mk] at h
    cases hcount : (st.calls.nextCallFor o addr).2 with
    | none => rfl
    | some n =>
      rw [hcount, Option.bind_some, List.getElem?_eq_getElem (Nat.mod_lt _ hpos)] at h
      cases h
  | crud spec headers =>
    simp only [resolveStrategy, OptionT.mk] at h
    cases hcrud : st.crud with
    | none =>
      rw [hcrud] at h
      cases h
    | some store =>
      simp only [hcrud] at h
      refine Or.inr ⟨store, rfl, ?_⟩
      rcases store with ⟨store, _ | _⟩
      · have happly := LockedStore.apply_sound o store (crudRequestOp x req out.uuid)
        rw [LockedStore.sound] at happly
        rw [happly] at h
        rcases happ : store.apply o (crudRequestOp x req out.uuid) with p | r <;> rw [happ] at h
        · exact Or.inr (CrudStore.nextIdAfter_of_panic happ)
        · cases h
      · exact Or.inl rfl

private theorem resolveStrategy_generates {rule : Rule} (hrule : rule.WellFormed)
    {st : RuleState α} {rng : Rng} {reply : ReplySpec}
    (h : (resolveStrategy x o rule.reply addr req out (st, rng)).1 = some (some reply)) :
    ∃ bytes, generateBody x (resolveReflect x reply req).body = .ok bytes := by
  have hwf : reply.body.WellFormed := by
    have hown := hrule.own
    rw [Rule.ownReplies] at hown
    cases hr : rule.reply with
    | static r =>
      rw [hr] at h hown
      cases h
      exact (hown reply (List.mem_singleton_self _)).body
    | sequence replies =>
      rw [hr] at h hown
      simp only [resolveStrategy, OptionT.mk] at h
      obtain ⟨n, _, hn⟩ := Option.bind_eq_some_iff.mp h
      obtain ⟨r, hget, hsome⟩ := Option.map_eq_some_iff.mp hn
      obtain rfl := Option.some.inj hsome
      exact (hown r (List.mem_of_getElem? hget)).body
    | crud spec headers =>
      rw [hr] at h
      simp only [resolveStrategy, OptionT.mk] at h
      cases hcrud : st.crud with
      | none =>
        rw [hcrud] at h
        cases h
      | some store =>
        simp only [hcrud] at h
        obtain ⟨answer, _, hanswer⟩ := Option.map_eq_some_iff.mp h
        obtain rfl := Option.some.inj hanswer
        intro repeated size hbody
        rw [crudReply] at hbody
        dsimp only at hbody
        split_ifs at hbody
  refine BodySpec.WellFormed.generates ?_ (resolveReflect_isReflect x reply req) x
  rw [resolveReflect]
  split
  · intro repeated size hbody
    cases hbody
  · exact hwf

end Handling

private theorem LiveRule.silenced_of_delivery [DecidableEq α] {x : External} {o : OverflowChecks}
    {live : LiveRule α} {c : Call α} (hwf : live.rule.WellFormed) {reply : ReplySpec}
    (hsend : live.MaySend x o c reply) {bytes : List UInt8}
    (hbytes : generateBody x reply.body = .ok bytes) {delivery : DeliverySpec}
    (hmem : delivery ∈ live.rule.deliveries) {permit : Bool} {rng : Rng}
    (h : (withTimeout live.rule.behavior.timeout
      (buildDeliveryResponse x reply delivery permit c.out) rng).toOption.map Prod.fst = none) :
    live.Silenced x o c := by
  have htimeout : ∀ range, live.rule.behavior.timeout = some range → range.FromSecs := by
    intro range hrange
    refine hwf.waits range (List.mem_append_left _ ?_)
    rw [hrange]
    exact List.mem_singleton_self _
  obtain ⟨rng', hinner⟩ := withTimeout_eq htimeout
    (buildDeliveryResponse x reply delivery permit c.out) rng
  rw [hinner] at h
  cases hbuild : buildDeliveryResponse x reply delivery permit c.out rng' with
  | ok r =>
    rw [hbuild] at h
    cases h
  | error p =>
    rcases buildDeliveryResponse_error hbytes (hwf.deliveries delivery hmem) hbuild with
      hlong | ⟨dropTime, hangTime, rng₂, htimes, hreach⟩
    · exact .size hsend hbytes hlong
    · exact .times hmem htimes hreach

private theorem LiveRule.silenced_of_none [DecidableEq α] {x : External} {o : OverflowChecks}
    {live : LiveRule α} {c : Call α} (hwf : live.rule.WellFormed)
    (h : (live.serve x o c).2 = none) : live.Silenced (x.withFiles c.files) o c := by
  have hcourse := live.course_serve x o c
  have hside : ∀ reply ∈ live.rule.sideReplies,
      live.Silenced (x.withFiles c.files) o c ∨
        ∃ bytes, generateBody (x.withFiles c.files) reply.body = .ok bytes := by
    intro reply hmem
    cases hecho : reply.body.isReflect with
    | true => exact Or.inl (.echo hmem hecho)
    | false => exact Or.inr ((hwf.side reply hmem).body.generates hecho _)
  generalize (live.serve x o c).2 = answer at hcourse h
  cases hcourse with
  | panics hcheck =>
    obtain ⟨⟨rl, hlimit⟩, hclock⟩ := Handling.checkPolicies_none hwf.waits hcheck
    exact .clock hlimit hclock
  | @rejects reply hmem =>
    refine (hside reply (List.mem_append_left _ hmem)).resolve_right ?_
    rintro ⟨bytes, hbytes⟩
    rw [buildReplyResponse, hbytes] at h
    cases h
  | unresolved hresolve =>
    rcases Handling.resolveStrategy_none hwf.sequence hresolve with
      ⟨replies, hreplies, hcount⟩ | ⟨store, hstore, hids⟩
    · exact .calls hreplies hcount
    · exact .ids hstore hids
  | storeless => cases h
  | @delivers reply delivery permit rng hsend hdelivery =>
    have hgenerates : live.Silenced (x.withFiles c.files) o c ∨
        ∃ bytes, generateBody (x.withFiles c.files) reply.body = .ok bytes := by
      cases hsend with
      | side hmem => exact hside reply hmem
      | own hresolve => exact Or.inr (Handling.resolveStrategy_generates hwf hresolve)
    rcases hgenerates with hsilenced | ⟨bytes, hbytes⟩
    · exact hsilenced
    · exact silenced_of_delivery hwf hsend hbytes hdelivery h

/-- At any time, no request makes its handler panic in a server that is up, but for a few reasons:
the clock is too young for a rate limiter, the calls of a sequence or the ids of a resource have run
out, a reply of the limits or of a chaos entry is an echo of the request, a drop or a hang lies past
the end of the clock, or a body is longer than any memory. -/
theorem silent_only_if [DecidableEq α] {x : External} {o : OverflowChecks}
    {parent : String → Option String} {config : Option String} {s t : Server α}
    (hstart : (Server.start x o parent config).2 = some s) {calls : List (Call α)}
    {outs : List (Option ℕ × Option Response)}
    (hrun : run (Server.next x o) s calls = some (t, outs)) (hup : t.down = false) {c : Call α}
    (hroute : route c.req.method c.req.path = .request) (hsilent : (t.serve x o c).2.2 = none) :
    ∃ i live, t.finds c = some i ∧ t.live[i]? = some live ∧
      live.Silenced (x.withFiles c.files) o c := by
  obtain ⟨hs, _, hlives⟩ := Server.sound_start hstart
  have hwf : ∀ live ∈ t.live, live.rule.WellFormed := by
    refine Server.run_forall (fun _ _ h => h) ?_ hs hrun ?_
    · intro files body rules hbody rule hmem live hnew
      obtain ⟨v, hparse⟩ := parseRules_of_body hbody
      rw [(LiveRule.fits_new hnew).1]
      exact parseRules_wellFormed hparse rule hmem
    · intro live hmem
      obtain ⟨v, baseDir, rules, rule, hparse, hrule, hnew⟩ := hlives live hmem
      rw [(LiveRule.fits_new hnew).1]
      exact parseRules_wellFormed hparse rule hrule
  have ht := Server.sound_run hs hrun
  cases hfinds : t.finds c with
  | none =>
    rw [ht.serve_unfound x o hroute hfinds] at hsilent
    cases hsilent
  | some i =>
    obtain ⟨live, hlive, hanswer⟩ := ht.serve_found hup x o hfinds
    rw [hanswer] at hsilent
    exact ⟨i, live, rfl, hlive,
      LiveRule.silenced_of_none (hwf live (List.mem_of_getElem? hlive)) hsilent⟩

theorem silent_only_if_early :
    let limit : Value := .obj [("max", .ofNat 1), ("over", .obj [] (by decide))] (by decide)
    let v : Value := .obj [("match", .string "_"), ("reply", .obj [] (by decide)),
      ("serve", .obj [("rps", limit)] (by decide))] (by decide)
    let x : External := { (default : External) with fromStr := fun _ => .ok v }
    let put := plainCall "PUT" "/_mx" (utf8 v.toString)
    let plain := plainCall "GET" "/a" []
    let get := { plain with
      out := { plain.out with limiterNow := ⟨-(2 ^ 63 * 10 ^ 9), by decide⟩ } }
    ∃ s outs live, run (Server.next x .checked) .new [put] = some (s, outs) ∧
      (s.serve x .checked get).2.2 = none ∧
      LiveRule.Silenced (x.withFiles get.files) .checked live get := by
  intro limit v x put plain get
  obtain ⟨rule, r, hparse, hreply, hmatch, hlimit⟩ : ∃ rule r,
      parseRules { x with readFile := put.files } v none = .ok [rule] ∧ rule.reply = .static r ∧
        rule.matchRule = .catchAll ∧ rule.behavior.rateLimit.isSome = true :=
    ⟨_, _, rfl, rfl, rfl, rfl⟩
  obtain ⟨rl, hrl⟩ := Option.isSome_iff_exists.mp hlimit
  have hput : Replaces x put [rule] := ⟨rfl, rfl, parseBodyAsRules_utf8 rfl hparse⟩
  have hlive : liveRules (α := Unit) .checked [rule] = ([⟨rule, .fresh rule none⟩], true) := by
    simp [liveRules, LiveRule.new, hreply]
  obtain ⟨s, outs, hrun, hup, hone⟩ := hput.run_new hlive
  have hfinds : s.finds get = some 0 := Server.finds_of_catchAll hone hmatch rfl rfl
  obtain ⟨live, hget, hanswer⟩ :=
    (Server.sound_run Server.sound_new hrun).serve_found hup x .checked hfinds
  rw [hone] at hget
  obtain rfl := Option.some.inj hget
  have hsilent : (s.serve x .checked get).2.2 = none := by
    rw [hanswer]
    have hrate : (BehaviorRuntime.new rule.behavior).checkRate rule.behavior get.out.limiterNow =
        .error .overflow := by
      simp only [BehaviorRuntime.checkRate, BehaviorRuntime.new, hrl, Option.map_some]
      rfl
    exact congrArg Prod.snd (LiveRule.serve_of_rate_error (x := x) (o := .checked) rfl hrate)
  have hstart : (Server.start (α := Unit) x .checked (fun _ => none) none).2 = some .new := rfl
  obtain ⟨i, live, _, _, hwhy⟩ := silent_only_if hstart hrun hup rfl hsilent
  exact ⟨s, outs, live, hrun, hsilent, hwhy⟩

end Mockinx
