import Mockinx.Lib.Parts
import Mockinx.Server.Service

/-!
The server as independent rules. Behind the tables, which share indices and counters, each rule has
objects of its own; a call goes to the last rule that accepts it, or to the registry.
-/

set_option autoImplicit false
set_option relaxedAutoImplicit false

namespace Mockinx

open Lib Lib.Run

variable {α : Type}

/-- A registered rule with its objects. -/
structure LiveRule (α : Type) where
  rule : Rule
  state : RuleState α

def RuleState.fresh (rule : Rule) (crud : Option CrudStore) : RuleState α where
  runtime := some (.new rule.behavior)
  crud := crud.map fun store => ⟨store, false⟩
  calls := { count := fun _ => 0 }

def LiveRule.new (o : OverflowChecks) (rule : Rule) : Option (LiveRule α) :=
  match rule.reply with
  | .crud spec _ =>
    match CrudStore.new o spec with
    | .ok store => some ⟨rule, .fresh rule (some store)⟩
    | .error _ => none
  | _ => some ⟨rule, .fresh rule none⟩

/-- Bring rules to life as far as it goes, and whether it went to the end. -/
def liveRules (o : OverflowChecks) : List Rule → List (LiveRule α) × Bool
  | [] => ([], true)
  | rule :: rules =>
    match LiveRule.new o rule with
    | some live =>
      let (lives, ok) := liveRules o rules
      (live :: lives, ok)
    | none => ([], false)

def lastMatch (method path : String) : List Rule → Option ℕ
  | [] => none
  | rule :: rules =>
    match lastMatch method path rules with
    | some i => some (i + 1)
    | none => if rule.matchRule.matches method path then some 0 else none

def listingOf (rules : List Rule) : Response where
  status := 200
  headers := [("content-type", "application/json")]
  body := .full (utf8 (Value.array (rules.reverse.map (·.source))).toString)

/-- What a registry call with a body does: whether the server is down afterwards, the rules, and
the response. -/
def registryCall (x : External) (o : OverflowChecks) (keep : Bool) (status : ℕ) (verb : String)
    (down : Bool) (body : List UInt8) : Bool × TableEdit (LiveRule α) × Option Response :=
  match parseBodyAsRules x body with
  | .error _ => (down, .idle, none)
  | .ok (.error response) => (down, .idle, some response)
  | .ok (.ok rules) =>
    if down then (down, ⟨keep, []⟩, none)
    else
      let (lives, ok) := liveRules o rules
      (!ok, ⟨keep, lives⟩,
        if ok then some (textResponse status (rulesMessage rules verb)) else none)

/-- The server as a table of rules, which is down or not. -/
def perRule [DecidableEq α] (x : External) (o : OverflowChecks) :
    Parts Bool Rule (LiveRule α) (Call α) (Option Response) where
  key live := live.rule
  route _ rules c :=
    match route c.req.method c.req.path with
    | .request => if c.unreadable then none else lastMatch c.req.method c.req.path rules
    | _ => none
  serve down live c :=
    if down then (live, none)
    else
      let (response, st, _) := Handling.handleMatched { x with readFile := c.files } o live.rule
        c.addr c.req c.out (live.state, c.rng)
      ({ live with state := st }, response)
  admin down rules c :=
    let x := { x with readFile := c.files }
    match route c.req.method c.req.path, c.rejection with
    | .list, _ => (down, .idle, some (listingOf rules))
    | .methodNotAllowed, _ => (down, .idle, some wrongMethod)
    | .append, none => registryCall x o true 201 "added" down c.req.body
    | .replace, none => registryCall x o false 200 "loaded" down c.req.body
    | .append, some response | .replace, some response => (down, .idle, some response)
    | .request, _ => (down, .idle, some
        (if c.unreadable then textResponse 400 "failed to read body" else .ofStatus 404))
  key_serve down live c := by
    split_ifs <;> rfl

/-- What a request does to the rule that it finds, and its response. -/
def LiveRule.handle [DecidableEq α] (x : External) (o : OverflowChecks) (live : LiveRule α)
    (c : Call α) : Option Response × RuleState α × Rng :=
  Handling.handleMatched { x with readFile := c.files } o live.rule c.addr c.req c.out
    (live.state, c.rng)

theorem perRule_serve_down [DecidableEq α] (x : External) (o : OverflowChecks) (live : LiveRule α)
    (c : Call α) : (perRule x o).serve true live c = (live, none) := rfl

theorem perRule_serve_up [DecidableEq α] (x : External) (o : OverflowChecks) (live : LiveRule α)
    (c : Call α) : (perRule x o).serve false live c =
      (⟨live.rule, (live.handle x o c).2.1⟩, (live.handle x o c).1) := rfl

theorem mem_liveRules {o : OverflowChecks} {rules : List Rule} {live : LiveRule α}
    (h : live ∈ (liveRules o rules).1) : ∃ rule ∈ rules, LiveRule.new o rule = some live := by
  induction rules with
  | nil => cases h
  | cons rule rules ih =>
    rw [liveRules] at h
    cases hnew : (LiveRule.new o rule : Option (LiveRule α)) with
    | none =>
      rw [hnew] at h
      cases h
    | some first =>
      rw [hnew] at h
      rcases List.mem_cons.mp h with rfl | h
      · exact ⟨rule, List.mem_cons_self, hnew⟩
      · obtain ⟨rule', hmem, hnew'⟩ := ih h
        exact ⟨rule', List.mem_cons_of_mem _ hmem, hnew'⟩

theorem mem_added [DecidableEq α] {x : External} {o : OverflowChecks} {down : Bool}
    {rules : List Rule} {c : Call α} {live : LiveRule α}
    (h : live ∈ ((perRule x o).admin down rules c).2.1.added) :
    ∃ parsed, parseBodyAsRules { x with readFile := c.files } c.req.body = .ok (.ok parsed) ∧
      ∃ rule ∈ parsed, LiveRule.new o rule = some live := by
  have hcall : ∀ keep status verb, live ∈ (registryCall { x with readFile := c.files } o keep status
      verb down c.req.body).2.1.added → ∃ parsed,
        parseBodyAsRules { x with readFile := c.files } c.req.body = .ok (.ok parsed) ∧
          ∃ rule ∈ parsed, LiveRule.new o rule = some live := by
    intro keep status verb h
    rw [registryCall] at h
    rcases hparse : parseBodyAsRules { x with readFile := c.files } c.req.body with
      p | response | parsed <;> rw [hparse] at h
    · cases h
    · cases h
    · cases down with
      | true => cases h
      | false => exact ⟨parsed, rfl, mem_liveRules h⟩
  simp only [perRule] at h
  cases hroute : route c.req.method c.req.path with
  | list | methodNotAllowed | request =>
    rw [hroute] at h
    cases h
  | append | replace =>
    rw [hroute] at h
    cases hrej : c.rejection with
    | some response =>
      rw [hrej] at h
      cases h
    | none =>
      rw [hrej] at h
      exact hcall _ _ _ h

theorem lastMatch_lt {method path : String} {rules : List Rule} {i : ℕ}
    (h : lastMatch method path rules = some i) : i < rules.length := by
  induction rules generalizing i with
  | nil => cases h
  | cons rule rules ih =>
    rw [lastMatch] at h
    cases hlast : lastMatch method path rules with
    | some j =>
      rw [hlast] at h
      obtain rfl := Option.some.inj h
      exact Nat.succ_lt_succ (ih hlast)
    | none =>
      rw [hlast] at h
      dsimp only at h
      split_ifs at h
      obtain rfl := Option.some.inj h
      exact Nat.succ_pos _

structure RuleState.SameObjects (st st' : RuleState α) : Prop where
  runtime : st'.runtime.isSome = st.runtime.isSome
  crud : st'.crud.isSome = st.crud.isSome

def RuleState.Checks (spec : BehaviorSpec) (now : Instant) (st st' : RuleState α) : Prop :=
  st' = st ∨ ∃ rt rt' reply, st.runtime = some rt ∧ rt.checkRate spec now = .ok (rt', reply) ∧
    st' = { st with runtime := some rt' }

/-- The strategy may perform the operation on the store of a resource or count a call of a
sequence. -/
structure RuleState.Resolves [DecidableEq α] (o : OverflowChecks) (strategy : ReplyStrategy)
    (addr : α) (op : CrudOp) (st st' : RuleState α) : Prop where
  runtime : st'.runtime = st.runtime
  crud : st'.crud = st.crud ∨ ∃ store, strategy.isCrud = true ∧ st.crud = some store ∧
    st'.crud = some (store.apply o op).1
  calls : st'.calls = st.calls ∨ ∃ replies, strategy = .sequence replies ∧
    st'.calls = (st.calls.nextCallFor o addr).1

private theorem RuleState.Resolves.refl [DecidableEq α] (o : OverflowChecks)
    (strategy : ReplyStrategy)
    (addr : α) (op : CrudOp) (st : RuleState α) : st.Resolves o strategy addr op st :=
  ⟨rfl, Or.inl rfl, Or.inl rfl⟩

namespace Handling

variable {β : Type}

@[simp] theorem draw_state (m : Sampler β) (st : RuleState α) (rng : Rng) :
    (draw m (st, rng)).2.1 = st := by
  rw [draw_apply]
  cases m rng <;> rfl

theorem checks_checkPolicies (spec : BehaviorSpec) (out : Outside) (st : RuleState α) (rng : Rng) :
    st.Checks spec out.limiterNow (checkPolicies spec out (st, rng)).2.1 := by
  simp only [checkPolicies, OptionT.mk]
  cases hrt : st.runtime with
  | none => exact Or.inl rfl
  | some rt =>
    dsimp only
    rcases hrate : rt.checkRate spec out.limiterNow with p | ⟨rt', _ | reply⟩
    · exact Or.inl rfl
    · exact Or.inr ⟨rt, rt', none, hrt, hrate, draw_state _ _ _⟩
    · exact Or.inr ⟨rt, rt', some reply, hrt, hrate, rfl⟩

variable [DecidableEq α] (x : External) (o : OverflowChecks) (addr : α) (req : Request)
  (out : Outside)

private theorem resolves_resolveStrategy (strategy : ReplyStrategy) (st : RuleState α) (rng : Rng) :
    st.Resolves o strategy addr (crudRequestOp x req out.uuid)
      (resolveStrategy x o strategy addr req out (st, rng)).2.1 := by
  cases strategy with
  | static reply => exact .refl _ _ _ _ _
  | sequence replies => exact ⟨rfl, Or.inl rfl, Or.inr ⟨replies, rfl, rfl⟩⟩
  | crud spec headers =>
    simp only [resolveStrategy, OptionT.mk]
    cases hcrud : st.crud with
    | none => exact .refl _ _ _ _ _
    | some store => exact ⟨rfl, Or.inr ⟨store, rfl, hcrud, rfl⟩, Or.inl rfl⟩

private theorem resolves_resolveAndDeliver (rule : Rule) (permit : Bool) (st : RuleState α)
    (rng : Rng) :
    st.Resolves o rule.reply addr (crudRequestOp x req out.uuid)
      (resolveAndDeliver x o rule addr req permit out (st, rng)).2.1 := by
  rw [resolveAndDeliver, bind_apply, draw_apply]
  rcases rollChaos rule.chaos rng with p | ⟨⟨_ | reply, delivery⟩, rng'⟩
  · exact .refl _ _ _ _ _
  · have hresolves := resolves_resolveStrategy x o addr req out rule.reply st rng'
    dsimp only
    rw [bind_apply]
    rcases hresolve : resolveStrategy x o rule.reply addr req out (st, rng') with
      ⟨_ | _ | reply, st', rng''⟩ <;> rw [hresolve] at hresolves
    · exact hresolves
    · exact hresolves
    · dsimp only
      rwa [draw_state]
  · dsimp only
    rw [draw_state]
    exact .refl _ _ _ _ _

theorem resolves_handleMatched (rule : Rule) (st : RuleState α) (rng : Rng) :
    (checkPolicies rule.behavior out (st, rng)).2.1.Resolves o rule.reply addr
      (crudRequestOp x req out.uuid) (handleMatched x o rule addr req out (st, rng)).2.1 := by
  rw [handleMatched, bind_apply]
  rcases checkPolicies rule.behavior out (st, rng) with ⟨_ | verdict, st', rng'⟩
  · exact .refl _ _ _ _ _
  · cases verdict with
    | reject reply =>
      dsimp only
      rw [draw_state]
      exact .refl _ _ _ _ _
    | proceed permit => exact resolves_resolveAndDeliver x o addr req out rule permit st' rng'

theorem handleMatched_sameObjects (rule : Rule) (st : RuleState α) (rng : Rng) :
    st.SameObjects (handleMatched x o rule addr req out (st, rng)).2.1 := by
  have hresolves := resolves_handleMatched x o addr req out rule st rng
  have hmid : st.SameObjects (checkPolicies rule.behavior out (st, rng)).2.1 := by
    rcases checks_checkPolicies rule.behavior out st rng with hsame | ⟨rt, rt', reply, hrt, _, hst⟩
    · rw [hsame]
      exact ⟨rfl, rfl⟩
    · rw [hst]
      exact ⟨by rw [hrt]; rfl, rfl⟩
  refine ⟨by rw [hresolves.runtime, hmid.runtime], ?_⟩
  rcases hresolves.crud with hsame | ⟨store, _, hstore, hafter⟩
  · rw [hsame, hmid.crud]
  · rw [hafter, ← hmid.crud, hstore]
    rfl

end Handling

end Mockinx
