import Mockinx.Rule
import Mockinx.Serve.DeliverTotal
import Mockinx.Server.Sendable

/-!
What holds of every rule that the parser accepts. Its replies have a body that can be generated
once a request echo is resolved, and its durations can be drawn.
-/

set_option autoImplicit false
set_option relaxedAutoImplicit false

namespace Mockinx

open Lib

def BodySpec.WellFormed (body : BodySpec) : Prop :=
  ∀ repeated size, body = .pattern repeated size → repeated ≠ ""

structure ReplySpec.WellFormed (reply : ReplySpec) : Prop where
  status : reply.status ≤ 999
  body : reply.body.WellFormed

def BehaviorSpec.overReplies (spec : BehaviorSpec) : List ReplySpec :=
  (spec.rateLimit.map (·.«over»)).toList ++
    match spec.concurrency with
    | some ⟨_, .reply reply⟩ | some ⟨_, .blockWithTimeout _ reply⟩ => [reply]
    | _ => []

def BehaviorSpec.waits (spec : BehaviorSpec) : List (Range Duration) :=
  spec.timeout.toList ++
    match spec.concurrency with
    | some ⟨_, .blockWithTimeout timeout _⟩ => [timeout]
    | _ => []

namespace Rule

def sideReplies (rule : Rule) : List ReplySpec :=
  rule.behavior.overReplies ++ (rule.chaos.getD []).filterMap (·.reply)

def ownReplies (rule : Rule) : List ReplySpec :=
  match rule.reply with
  | .static reply => [reply]
  | .sequence replies => replies
  | .crud _ _ => []

def deliveries (rule : Rule) : List DeliverySpec :=
  rule.delivery :: (rule.chaos.getD []).filterMap (·.serve)

structure WellFormed (rule : Rule) : Prop where
  own : ∀ reply ∈ rule.ownReplies, reply.WellFormed
  side : ∀ reply ∈ rule.sideReplies, reply.WellFormed
  deliveries : ∀ delivery ∈ rule.deliveries, delivery.FromSecs
  waits : ∀ wait ∈ rule.behavior.waits, wait.FromSecs
  sequence : rule.reply ≠ .sequence []

end Rule

theorem BodySpec.WellFormed.generates {body : BodySpec} (h : body.WellFormed)
    (hbody : body.isReflect = false) (x : External) : ∃ bytes, generateBody x body = .ok bytes := by
  cases body with
  | none => exact ⟨_, rfl⟩
  | literal v => cases v <;> exact ⟨_, rfl⟩
  | rand size seed => exact ⟨_, rfl⟩
  | pattern repeated size =>
    have hne : ¬ utf8 repeated = [] := fun hnil => h repeated size rfl (utf8_eq_nil.mp hnil)
    rw [generateBody, generatePattern]
    dsimp only
    rw [if_neg hne]
    split_ifs <;> exact ⟨_, rfl⟩
  | reflect fields => cases hbody
  | file path =>
    rw [generateBody]
    split <;> exact ⟨_, rfl⟩

private theorem parseReply_wellFormed {x : External} {v : Value} {baseDir : Option String}
    {reply : ReplySpec} (h : parseReply x v baseDir = .ok reply) : reply.WellFormed := by
  rw [parseReply] at h
  obtain ⟨obj, _, h⟩ := parse_bind_ok.mp h
  obtain ⟨status, hstatus, h⟩ := parse_bind_ok.mp h
  obtain ⟨headers, _, h⟩ := parse_bind_ok.mp h
  obtain ⟨body, hbody, h⟩ := parse_bind_ok.mp h
  cases h
  refine ⟨parseStatus_le hstatus, ?_⟩
  rintro repeated size rfl
  exact parseBody_pattern hbody

private theorem parseReplies_wellFormed {x : External} {vs : List Value} {baseDir : Option String}
    {replies : List ReplySpec}
    (h : vs.mapM (fun v => parseReply x v baseDir) = .ok replies) :
    (vs ≠ [] → replies ≠ []) ∧ ∀ reply ∈ replies, reply.WellFormed := by
  induction vs generalizing replies with
  | nil =>
    rw [List.mapM_nil] at h
    cases h
    exact ⟨fun hne => absurd rfl hne, fun reply hmem => by cases hmem⟩
  | cons v vs ih =>
    rw [List.mapM_cons] at h
    obtain ⟨reply, hreply, h⟩ := parse_bind_ok.mp h
    obtain ⟨rest, hrest, h⟩ := parse_bind_ok.mp h
    cases h
    refine ⟨fun _ => List.cons_ne_nil _ _, ?_⟩
    intro r hr
    rcases List.mem_cons.mp hr with rfl | hr
    · exact parseReply_wellFormed hreply
    · exact (ih hrest).2 r hr

private theorem parseReplyStrategy_wellFormed {x : External} {v : Value} {baseDir : Option String}
    {strategy : ReplyStrategy} (h : parseReplyStrategy x v baseDir = .ok strategy) :
    strategy ≠ .sequence [] ∧ (∀ reply, strategy = .static reply → reply.WellFormed) ∧
      ∀ replies, strategy = .sequence replies → ∀ reply ∈ replies, reply.WellFormed := by
  cases v with
  | array arr =>
    simp only [parseReplyStrategy] at h
    split_ifs at h with hempty
    · cases h
    · obtain ⟨replies, hreplies, h⟩ := parse_bind_ok.mp h
      cases h
      obtain ⟨hne, hall⟩ := parseReplies_wellFormed hreplies
      refine ⟨fun heq => ?_, fun reply heq => (by cases heq), fun rs heq => ?_⟩
      · exact hne (fun hnil => hempty (by rw [hnil]; rfl)) (ReplyStrategy.sequence.inj heq)
      · cases heq
        exact hall
  | object obj =>
    simp only [parseReplyStrategy] at h
    split at h
    · obtain ⟨spec, headers, rfl⟩ : ∃ spec headers, strategy = .crud spec headers := by
        split_ifs at h
        · cases h
          exact ⟨_, _, rfl⟩
        · obtain ⟨_, _, h⟩ := parse_bind_ok.mp h
          obtain ⟨_, _, h⟩ := parse_bind_ok.mp h
          cases h
          exact ⟨_, _, rfl⟩
      exact ⟨fun heq => (by cases heq), fun _ heq => (by cases heq), fun _ heq => (by cases heq)⟩
    · obtain ⟨reply, hreply, h⟩ := parse_bind_ok.mp h
      cases h
      refine ⟨fun heq => (by cases heq), fun r heq => ?_, fun _ heq => (by cases heq)⟩
      cases heq
      exact parseReply_wellFormed hreply
  | null | bool _ | number _ | string _ => cases h

private theorem parseTimeout_fromSecs {obj : Map} {timeout : Range Duration}
    (h : parseTimeout obj = .ok (some timeout)) : timeout.FromSecs := by
  rw [parseTimeout] at h
  split at h
  · cases h
  · obtain ⟨range, hrange, h⟩ := parse_bind_ok.mp h
    cases h
    exact parseDurationRange_fromSecs hrange
  · cases h

private theorem parseRps_wellFormed {x : External} {obj : Map} {rl : RateLimitSpec}
    (h : parseRps x obj = .ok (some rl)) : rl.«over».WellFormed := by
  rw [parseRps] at h
  split at h
  · cases h
  · obtain ⟨_, _, h⟩ := parse_bind_ok.mp h
    obtain ⟨_, _, h⟩ := parse_bind_ok.mp h
    obtain ⟨_, _, h⟩ := parse_bind_ok.mp h
    obtain ⟨reply, hreply, h⟩ := parse_bind_ok.mp h
    cases h
    exact parseReply_wellFormed hreply

private theorem parseOverflowAction_wellFormed {x : External} {obj : Map} {action : OverflowAction}
    (h : parseOverflowAction x obj = .ok action) :
    (∀ reply, action = .reply reply → reply.WellFormed) ∧
      ∀ timeout reply, action = .blockWithTimeout timeout reply →
        timeout.FromSecs ∧ reply.WellFormed := by
  rw [parseOverflowAction] at h
  obtain ⟨overVal, _, h⟩ := parse_bind_ok.mp h
  split at h
  · split_ifs at h
    · cases h
      exact ⟨fun _ heq => (by cases heq), fun _ _ heq => (by cases heq)⟩
    · cases h
  · split at h
    · obtain ⟨_, _, h⟩ := parse_bind_ok.mp h
      obtain ⟨timeout, htimeout, h⟩ := parse_bind_ok.mp h
      obtain ⟨_, _, h⟩ := parse_bind_ok.mp h
      obtain ⟨andThen, hthen, h⟩ := parse_bind_ok.mp h
      cases h
      refine ⟨fun _ heq => (by cases heq), fun t r heq => ?_⟩
      cases heq
      exact ⟨parseDurationRange_fromSecs htimeout, parseReply_wellFormed hthen⟩
    · obtain ⟨reply, hreply, h⟩ := parse_bind_ok.mp h
      cases h
      refine ⟨fun r heq => ?_, fun _ _ heq => (by cases heq)⟩
      cases heq
      exact parseReply_wellFormed hreply
  · cases h

private theorem parseConn_action {x : External} {obj : Map} {conc : ConcurrencySpec}
    (h : parseConn x obj = .ok (some conc)) :
    ∃ cObj, parseOverflowAction x cObj = .ok conc.«over» := by
  rw [parseConn] at h
  split at h
  · cases h
  · obtain ⟨cObj, _, h⟩ := parse_bind_ok.mp h
    obtain ⟨max, _, h⟩ := parse_bind_ok.mp h
    split_ifs at h
    · cases h
    · obtain ⟨action, haction, h⟩ := parse_bind_ok.mp h
      cases h
      exact ⟨cObj, haction⟩

private theorem parseBehavior_wellFormed {x : External} {v : Value} {spec : BehaviorSpec}
    (h : parseBehavior x v = .ok spec) :
    (∀ reply ∈ spec.overReplies, reply.WellFormed) ∧ ∀ wait ∈ spec.waits, wait.FromSecs := by
  rw [parseBehavior] at h
  obtain ⟨obj, _, h⟩ := parse_bind_ok.mp h
  obtain ⟨concurrency, hconn, h⟩ := parse_bind_ok.mp h
  obtain ⟨rateLimit, hrps, h⟩ := parse_bind_ok.mp h
  obtain ⟨timeout, htimeout, h⟩ := parse_bind_ok.mp h
  cases h
  have haction : ∀ max action, concurrency = some ⟨max, action⟩ →
      ∃ cObj, parseOverflowAction x cObj = .ok action := by
    rintro max action rfl
    exact parseConn_action hconn
  constructor
  · intro reply hmem
    rcases List.mem_append.mp hmem with hmem | hmem
    · obtain ⟨rl, rfl, rfl⟩ := Option.map_eq_some_iff.mp (Option.mem_toList.mp hmem)
      exact parseRps_wellFormed hrps
    · dsimp only at hmem
      split at hmem
      · obtain rfl := List.mem_singleton.mp hmem
        obtain ⟨cObj, hparse⟩ := haction _ _ rfl
        exact (parseOverflowAction_wellFormed hparse).1 _ rfl
      · obtain rfl := List.mem_singleton.mp hmem
        obtain ⟨cObj, hparse⟩ := haction _ _ rfl
        exact ((parseOverflowAction_wellFormed hparse).2 _ _ rfl).2
      · cases hmem
  · intro wait hmem
    rcases List.mem_append.mp hmem with hmem | hmem
    · obtain rfl := Option.mem_toList.mp hmem
      exact parseTimeout_fromSecs htimeout
    · dsimp only at hmem
      split at hmem
      · obtain rfl := List.mem_singleton.mp hmem
        obtain ⟨cObj, hparse⟩ := haction _ _ rfl
        exact ((parseOverflowAction_wellFormed hparse).2 _ _ rfl).1
      · cases hmem

private theorem parseChaosServe_fromSecs {obj : Map} {spec : DeliverySpec}
    (h : parseChaosServe obj = .ok (some spec)) : spec.FromSecs := by
  rw [parseChaosServe] at h
  split at h
  · cases h
  · obtain ⟨serveObj, _, h⟩ := parse_bind_ok.mp h
    obtain ⟨spec', hspec, h⟩ := parse_bind_ok.mp h
    split_ifs at h
    · cases h
    · cases h
      exact parseDeliveryFields_fromSecs hspec

private theorem parseChaosEntry_wellFormed {x : External} {totalP total : F64} {item : Value}
    {entry : ChaosEntry F64} (h : parseChaosEntry x totalP item = .ok (total, entry)) :
    (∀ reply, entry.reply = some reply → reply.WellFormed) ∧
      ∀ serve, entry.serve = some serve → serve.FromSecs := by
  rw [parseChaosEntry] at h
  obtain ⟨obj, _, h⟩ := parse_bind_ok.mp h
  obtain ⟨pVal, _, h⟩ := parse_bind_ok.mp h
  obtain ⟨p, _, h⟩ := parse_bind_ok.mp h
  dsimp only at h
  split_ifs at h
  · cases h
  · have hserves : ∀ reply : Option ReplySpec, (∀ r, reply = some r → r.WellFormed) → (do
          let serve ← parseChaosServe obj
          if reply.isNone && serve.isNone then fail "chaos entry must have 'reply' and/or 'serve'"
          else return (totalP + p, ({ p, reply, serve } : ChaosEntry F64))) =
            .ok (total, entry) →
        (∀ reply, entry.reply = some reply → reply.WellFormed) ∧
          ∀ serve, entry.serve = some serve → serve.FromSecs := by
      intro reply hreply h
      obtain ⟨serve, hserve, h⟩ := parse_bind_ok.mp h
      split_ifs at h
      · cases h
      · cases h
        refine ⟨hreply, ?_⟩
        rintro spec rfl
        exact parseChaosServe_fromSecs hserve
    split at h
    · obtain ⟨reply, hreply, h⟩ := parse_bind_ok.mp h
      refine hserves (some reply) ?_ h
      rintro r ⟨⟩
      exact parseReply_wellFormed hreply
    · exact hserves none (fun r hr => by cases hr) h

private theorem parseChaos_wellFormed {x : External} {v : Value} {entries : List (ChaosEntry F64)}
    (h : parseChaos x v = .ok entries) : ∀ entry ∈ entries,
      (∀ reply, entry.reply = some reply → reply.WellFormed) ∧
        ∀ serve, entry.serve = some serve → serve.FromSecs := by
  have hentries : ∀ (items : List Value) (totalP : F64) (entries : List (ChaosEntry F64)),
      parseChaosEntries x totalP items = .ok entries → ∀ entry ∈ entries,
        (∀ reply, entry.reply = some reply → reply.WellFormed) ∧
          ∀ serve, entry.serve = some serve → serve.FromSecs := by
    intro items
    induction items with
    | nil =>
      intro totalP entries h
      cases h
      intro entry hmem
      cases hmem
    | cons item items ih =>
      intro totalP entries h
      rw [parseChaosEntries] at h
      obtain ⟨⟨total, first⟩, hfirst, h⟩ := parse_bind_ok.mp h
      obtain ⟨rest, hrest, h⟩ := parse_bind_ok.mp h
      cases h
      intro entry hmem
      rcases List.mem_cons.mp hmem with rfl | hmem
      · exact parseChaosEntry_wellFormed hfirst
      · exact ih total rest hrest entry hmem
  rw [parseChaos] at h
  obtain ⟨arr, _, h⟩ := parse_bind_ok.mp h
  split_ifs at h
  · cases h
  · exact hentries arr 0 entries h

structure Rule.Parsed (x : External) (baseDir : Option String) (rule : Rule) : Prop where
  reply : ∃ v, parseReplyStrategy x v baseDir = .ok rule.reply
  serve : rule.delivery = {} ∧ rule.behavior = {} ∨
    ∃ v, parseServe x v = .ok (rule.delivery, rule.behavior)
  chaos : rule.chaos = none ∨ ∃ v entries, parseChaos x v = .ok entries ∧ rule.chaos = some entries

private theorem parseRule_parsed {x : External} {v : Value} {baseDir : Option String} {rule : Rule}
    (h : parseRule x v baseDir = .ok rule) : rule.Parsed x baseDir := by
  rw [parseRule] at h
  obtain ⟨obj, _, h⟩ := parse_bind_ok.mp h
  obtain ⟨_, _, h⟩ := parse_bind_ok.mp h
  obtain ⟨_, _, h⟩ := parse_bind_ok.mp h
  obtain ⟨matchRule, _, h⟩ := parse_bind_ok.mp h
  obtain ⟨replyVal, _, h⟩ := parse_bind_ok.mp h
  obtain ⟨reply, hreply, h⟩ := parse_bind_ok.mp h
  have hreply := mapErr_ok.mp hreply
  cases hserve : IndexMap.get? obj "serve" <;> rw [hserve] at h <;>
    obtain ⟨⟨delivery, behavior⟩, hparts, h⟩ := parse_bind_ok.mp h <;>
    cases hchaos : IndexMap.get? obj "chaos" <;> rw [hchaos] at h
  · cases hparts
    cases h
    exact ⟨⟨_, hreply⟩, Or.inl ⟨rfl, rfl⟩, Or.inl rfl⟩
  · cases hparts
    obtain ⟨entries, hentries, h⟩ := parse_bind_ok.mp h
    cases h
    exact ⟨⟨_, hreply⟩, Or.inl ⟨rfl, rfl⟩, Or.inr ⟨_, entries, mapErr_ok.mp hentries, rfl⟩⟩
  · cases h
    exact ⟨⟨_, hreply⟩, Or.inr ⟨_, mapErr_ok.mp hparts⟩, Or.inl rfl⟩
  · obtain ⟨entries, hentries, h⟩ := parse_bind_ok.mp h
    cases h
    exact ⟨⟨_, hreply⟩, Or.inr ⟨_, mapErr_ok.mp hparts⟩,
      Or.inr ⟨_, entries, mapErr_ok.mp hentries, rfl⟩⟩

private theorem DeliverySpec.fromSecs_default : ({} : DeliverySpec).FromSecs :=
  ⟨fun _ h => (by cases h), fun _ h => (by cases h), fun _ h => (by cases h),
    fun _ h => (by cases h), fun _ _ h => (by cases h)⟩

private theorem Rule.Parsed.wellFormed {x : External} {baseDir : Option String} {rule : Rule}
    (h : rule.Parsed x baseDir) : rule.WellFormed := by
  obtain ⟨replyVal, hreply⟩ := h.reply
  obtain ⟨hsequence, hstatic, hreplies⟩ := parseReplyStrategy_wellFormed hreply
  obtain ⟨hdelivery, hover, hwaits⟩ : rule.delivery.FromSecs ∧
      (∀ reply ∈ rule.behavior.overReplies, reply.WellFormed) ∧
        ∀ wait ∈ rule.behavior.waits, wait.FromSecs := by
    rcases h.serve with ⟨hdelivery, hbehavior⟩ | ⟨v, hserve⟩
    · rw [hdelivery, hbehavior]
      exact ⟨DeliverySpec.fromSecs_default, fun _ hmem => (by cases hmem),
        fun _ hmem => (by cases hmem)⟩
    · rw [parseServe] at hserve
      obtain ⟨obj, _, hserve⟩ := parse_bind_ok.mp hserve
      obtain ⟨_, _, hserve⟩ := parse_bind_ok.mp hserve
      obtain ⟨delivery, hdelivery, hserve⟩ := parse_bind_ok.mp hserve
      obtain ⟨behavior, hbehavior, hserve⟩ := parse_bind_ok.mp hserve
      obtain ⟨rfl, rfl⟩ := Prod.mk.inj (Except.ok.inj hserve)
      exact ⟨parseDeliveryFields_fromSecs hdelivery, parseBehavior_wellFormed hbehavior⟩
  have hchaos : ∀ entry ∈ rule.chaos.getD [],
      (∀ reply, entry.reply = some reply → reply.WellFormed) ∧
        ∀ serve, entry.serve = some serve → serve.FromSecs := by
    rcases h.chaos with hnone | ⟨v, entries, hparse, hsome⟩
    · rw [hnone]
      intro entry hmem
      cases hmem
    · rw [hsome]
      exact parseChaos_wellFormed hparse
  refine ⟨?_, ?_, ?_, hwaits, hsequence⟩
  · intro reply hmem
    cases hr : rule.reply with
    | static r =>
      rw [ownReplies, hr] at hmem
      exact List.mem_singleton.mp hmem ▸ hstatic r hr
    | sequence rs =>
      rw [ownReplies, hr] at hmem
      exact hreplies rs hr reply hmem
    | crud spec headers =>
      rw [ownReplies, hr] at hmem
      cases hmem
  · intro reply hmem
    rcases List.mem_append.mp hmem with hmem | hmem
    · exact hover reply hmem
    · obtain ⟨entry, hentry, hsome⟩ := List.mem_filterMap.mp hmem
      exact (hchaos entry hentry).1 reply hsome
  · intro delivery hmem
    rcases List.mem_cons.mp hmem with rfl | hmem
    · exact hdelivery
    · obtain ⟨entry, hentry, hsome⟩ := List.mem_filterMap.mp hmem
      exact (hchaos entry hentry).2 delivery hsome

theorem parseRules_parsed {x : External} {v : Value} {baseDir : Option String}
    {rules : List Rule} (h : parseRules x v baseDir = .ok rules) :
    ∀ rule ∈ rules, rule.Parsed x baseDir := by
  have hlist : ∀ (items : List Value) (i : ℕ) (rules : List Rule),
      parseRuleList x baseDir i items = .ok rules → ∀ rule ∈ rules, rule.Parsed x baseDir := by
    intro items
    induction items with
    | nil =>
      intro i rules h
      cases h
      intro rule hmem
      cases hmem
    | cons item items ih =>
      intro i rules h
      rw [parseRuleList] at h
      obtain ⟨first, hfirst, h⟩ := parse_bind_ok.mp h
      obtain ⟨rest, hrest, h⟩ := parse_bind_ok.mp h
      cases h
      intro rule hmem
      rcases List.mem_cons.mp hmem with rfl | hmem
      · exact parseRule_parsed (mapErr_ok.mp hfirst)
      · exact ih (i + 1) rest hrest rule hmem
  cases v with
  | array items => exact hlist items 0 rules h
  | object obj =>
    rw [parseRules] at h
    obtain ⟨rule, hrule, h⟩ := parse_bind_ok.mp h
    cases h
    intro r hmem
    obtain rfl := List.mem_singleton.mp hmem
    exact parseRule_parsed hrule
  | null | bool _ | number _ | string _ => cases h

theorem parseRules_wellFormed {x : External} {v : Value} {baseDir : Option String}
    {rules : List Rule} (h : parseRules x v baseDir = .ok rules) :
    ∀ rule ∈ rules, rule.WellFormed :=
  fun rule hmem => (parseRules_parsed h rule hmem).wellFormed

end Mockinx
