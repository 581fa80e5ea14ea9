import Mockinx.Server.State

/-!
The whole server, one call after the other: the routes, the registry's endpoint, and the handler of
all other requests with the objects of the rule that it finds. What a handler has changed stays
changed when it panics later; a panic under a lock leaves that lock poisoned.
-/

set_option autoImplicit false
set_option relaxedAutoImplicit false

namespace Mockinx

open Lib

/-- A resource store behind its lock. -/
structure LockedStore where
  store : CrudStore
  poisoned : Bool := false

/-- One operation under the lock, which only the refusal of a method does without. -/
def LockedStore.apply (o : OverflowChecks) (s : LockedStore) (op : CrudOp) :
    LockedStore × Option CrudResponse :=
  match s.poisoned, op with
  | _, .methodNotAllowed => (s, some Mockinx.methodNotAllowed)
  | true, _ => (s, none)
  | false, op =>
    match s.store.apply o op with
    | .ok (store, answer) => ({ s with store }, some answer)
    | .error _ => ({ s with poisoned := true }, none)

/-- The objects of one rule: its runtime and its resource store as they are looked up, and the
calls of its sequence. -/
structure RuleState (α : Type) where
  runtime : Option BehaviorRuntime
  crud : Option LockedStore
  calls : ConnCounters α

/-- The handling of a request: it changes the objects of its rule and draws from a generator, and
has no result when it panics. -/
abbrev Handling (α β : Type) := OptionT (StateM (RuleState α × Rng)) β

namespace Handling

variable {α β : Type}

def draw (m : Sampler β) : Handling α β := OptionT.mk fun (st, rng) =>
  match m rng with
  | .ok (b, rng) => (some b, (st, rng))
  | .error _ => (none, (st, rng))

/-- Check the policies. The rate limiter has counted the request before a wait for a permit. -/
def checkPolicies (spec : BehaviorSpec) (out : Outside) : Handling α BehaviorResult :=
  OptionT.mk fun (st, rng) =>
    match st.runtime with
    | none => (some (.proceed false), (st, rng))
    | some rt =>
      match rt.checkRate spec out.limiterNow with
      | .error _ => (none, (st, rng))
      | .ok (rt, some reply) => (some (.reject reply), ({ st with runtime := some rt }, rng))
      | .ok (rt, none) =>
        draw (rt.checkConcurrency spec out.granted) ({ st with runtime := some rt }, rng)

def crudReply (headers : Map) (answer : CrudResponse) : ReplySpec :=
  { status := answer.1, headers,
    body := if answer.2 = .null ∧ answer.1 = 204 then .none else .literal answer.2 }

def resolveStrategy [DecidableEq α] (x : External) (o : OverflowChecks) (strategy : ReplyStrategy)
    (addr : α) (req : Request) (out : Outside) : Handling α (Option ReplySpec) :=
  OptionT.mk fun (st, rng) =>
    match strategy with
    | .static reply => (some (some reply), (st, rng))
    | .sequence replies =>
      let (calls, callIdx) := st.calls.nextCallFor o addr
      (callIdx.bind fun n => (replies[n.toNat % replies.length]?).map some,
        ({ st with calls }, rng))
    | .crud _ headers =>
      match st.crud with
      | some store =>
        let (store, answer) := store.apply o (crudRequestOp x req out.uuid)
        (answer.map fun a => some (crudReply headers a), ({ st with crud := some store }, rng))
      | none => (some none, (st, rng))

/-- From an admitted request to its response. -/
def resolveAndDeliver [DecidableEq α] (x : External) (o : OverflowChecks) (rule : Rule) (addr : α)
    (req : Request) (permit : Bool) (out : Outside) : Handling α Response := do
  let (chaosReply, chaosDelivery) ← draw (rollChaos rule.chaos)
  let delivery := chaosDelivery.getD rule.delivery
  match chaosReply with
  | some reply =>
    draw (withTimeout rule.behavior.timeout (buildDeliveryResponse x reply delivery permit out))
  | none =>
    match ← resolveStrategy x o rule.reply addr req out with
    | some reply =>
      draw (withTimeout rule.behavior.timeout
        (buildDeliveryResponse x (resolveReflect x reply req) delivery permit out))
    | none => return .ofStatus 500

def handleMatched [DecidableEq α] (x : External) (o : OverflowChecks) (rule : Rule) (addr : α)
    (req : Request) (out : Outside) : Handling α Response := do
  match ← checkPolicies rule.behavior out with
  | .reject reply => draw (liftPanic (buildReplyResponse x reply))
  | .proceed permit => resolveAndDeliver x o rule addr req permit out

theorem bind_apply {γ : Type} (m : Handling α β) (f : β → Handling α γ) (s : RuleState α × Rng) :
    (m >>= f) s = match m s with
      | (some b, s') => f b s'
      | (none, s') => (none, s') := by
  rcases h : m s with ⟨_ | b, s'⟩
  · simp [bind, OptionT.bind, OptionT.mk, StateT.bind, h]
    rfl
  · simp [bind, OptionT.bind, OptionT.mk, StateT.bind, h]

theorem draw_apply (m : Sampler β) (st : RuleState α) (rng : Rng) :
    (draw m : Handling α β) (st, rng) = match m rng with
      | .ok (b, rng) => (some b, (st, rng))
      | .error _ => (none, (st, rng)) := rfl

end Handling

theorem fromUTF8_utf8 (s : String) : String.fromUTF8? ⟨(utf8 s).toArray⟩ = some s := by
  have hbytes : (⟨(utf8 s).toArray⟩ : ByteArray) = s.toByteArray := by simp [utf8]
  rw [hbytes, String.fromUTF8?, dif_pos s.isValidUTF8]
  rfl

theorem parseBodyAsRules_utf8 {x : External} {text : String} {v : Value} {rules : List Rule}
    (hread : x.fromStr text = .ok v) (hrules : parseRules x v none = .ok rules) :
    parseBodyAsRules x (utf8 text) = .ok (.ok rules) := by
  simp only [parseBodyAsRules, fromUTF8_utf8, hread, hrules]

theorem parseRules_of_body {x : External} {body : List UInt8} {rules : List Rule}
    (h : parseBodyAsRules x body = .ok (.ok rules)) : ∃ v, parseRules x v none = .ok rules := by
  rw [parseBodyAsRules] at h
  split at h
  · cases h
  · split at h
    · cases h
    · rename_i v _
      split at h
      · rename_i hrules
        obtain rfl := Except.ok.inj (Except.ok.inj h)
        exact ⟨v, hrules⟩
      · cases h
      · cases h

section Agreement

variable {α : Type}

/-- A resource store behind a lock that is not poisoned. -/
def LockedStore.sound (store : CrudStore) : LockedStore := ⟨store, false⟩

/-- A handling ends as another one that ends with objects of the rule and a result, or both
panic. -/
def Handling.Ends {β : Type} (r : Option β × RuleState α × Rng)
    (e : Except Panic ((Option BehaviorRuntime × Option CrudStore × β) × Rng)) : Prop :=
  match e with
  | .ok ((runtime, crud, b), rng) =>
    r.1 = some b ∧ r.2.1.runtime = runtime ∧ r.2.1.crud = crud.map LockedStore.sound ∧ r.2.2 = rng
  | .error _ => r.1 = none

theorem LockedStore.apply_sound (o : OverflowChecks) (store : CrudStore) (op : CrudOp) :
    (LockedStore.sound store).apply o op = match store.apply o op with
      | .ok (store, answer) => (LockedStore.sound store, some answer)
      | .error _ => (⟨store, true⟩, none) := by
  cases op <;> try rfl

private theorem Handling.draw_ends {β : Type} (m : Sampler β) {runtime : Option BehaviorRuntime}
    {crud : Option CrudStore} {calls : ConnCounters α} (rng : Rng) :
    Ends (draw m (⟨runtime, crud.map LockedStore.sound, calls⟩, rng))
      (((do return (crud, ← m)) rng : Except Panic ((Option CrudStore × β) × Rng)).map
        fun r => ((runtime, r.1), r.2)) := by
  rw [draw_apply]
  cases hm : m rng with
  | error p =>
    rw [sampler_bind_of_error hm]
    rfl
  | ok r =>
    rw [sampler_bind_of_ok hm]
    exact ⟨rfl, rfl, rfl, rfl⟩

private theorem Handling.resolveAndDeliver_ends [DecidableEq α] {x : External} {o : OverflowChecks}
    {rule : Rule} {addr : α} {req : Request} {permit : Bool} {out : Outside}
    {runtime : Option BehaviorRuntime} {crud : Option CrudStore} {calls calls' : ConnCounters α}
    (hcalls : calls.nextCallFor o addr = (calls', some out.callIdx)) (rng : Rng) :
    Ends (resolveAndDeliver x o rule addr req permit out
        (⟨runtime, crud.map LockedStore.sound, calls⟩, rng))
      ((Mockinx.resolveAndDeliver x o rule crud req permit out rng).map
        fun r => ((runtime, r.1), r.2)) := by
  rw [resolveAndDeliver, Mockinx.resolveAndDeliver, bind_apply, draw_apply]
  rcases hroll : rollChaos rule.chaos rng with p | ⟨⟨_ | reply, delivery⟩, rng₁⟩
  · rw [sampler_bind_of_error hroll]
    rfl
  · rw [sampler_bind_of_ok hroll]
    dsimp only
    rw [bind_apply]
    cases hreply : rule.reply with
    | static reply =>
      have hmine : resolveStrategy x o (.static reply) addr req out
          (⟨runtime, crud.map LockedStore.sound, calls⟩, rng₁) =
        (some (some reply), (⟨runtime, crud.map LockedStore.sound, calls⟩, rng₁)) := rfl
      have htheirs : liftPanic (Mockinx.resolveStrategy x o (.static reply) crud req out) rng₁ =
        .ok ((crud, some reply), rng₁) := rfl
      rw [hmine, sampler_bind_of_ok htheirs]
      exact draw_ends _ _
    | sequence replies =>
      simp only [resolveStrategy, OptionT.mk, Mockinx.resolveStrategy, hcalls, Option.bind_some]
      cases hget : replies[out.callIdx.toNat % replies.length]? with
      | none =>
        rw [sampler_bind_of_error (liftPanic_error rfl _)]
        rfl
      | some reply =>
        rw [sampler_bind_of_ok (liftPanic_ok.mpr ⟨rfl, rfl⟩)]
        exact draw_ends _ _
    | crud spec headers =>
      cases crud with
      | none => exact ⟨rfl, rfl, rfl, rfl⟩
      | some store =>
        simp only [resolveStrategy, OptionT.mk, Mockinx.resolveStrategy, resolveCrudReply,
          Option.map_some, LockedStore.apply_sound]
        rcases happ : store.apply o (crudRequestOp x req out.uuid) with p | ⟨store', answer⟩
        · simp only [Except.map]
          rw [sampler_bind_of_error (liftPanic_error rfl _)]
          rfl
        · simp only [Except.map]
          rw [sampler_bind_of_ok (liftPanic_ok.mpr ⟨rfl, rfl⟩)]
          exact @draw_ends _ _ _ runtime (some store') calls _
  · rw [sampler_bind_of_ok hroll]
    dsimp only
    exact draw_ends _ _

/-- Where no lock is poisoned and the count is the given one, a handling ends as the handler of a
matched request does. -/
theorem Handling.handleMatched_ends [DecidableEq α] {x : External} {o : OverflowChecks}
    {rule : Rule} {addr : α} {req : Request} {out : Outside}
    {runtime : Option BehaviorRuntime} {crud : Option CrudStore} {calls calls' : ConnCounters α}
    (hcalls : calls.nextCallFor o addr = (calls', some out.callIdx)) (rng : Rng) :
    Ends (handleMatched x o rule addr req out (⟨runtime, crud.map LockedStore.sound, calls⟩, rng))
      (Mockinx.handleMatched x o rule runtime crud req out rng) := by
  have hproceed : ∀ (runtime : Option BehaviorRuntime) (permit : Bool) (rng : Rng),
      Ends (resolveAndDeliver x o rule addr req permit out
          (⟨runtime, crud.map LockedStore.sound, calls⟩, rng))
        ((do return (runtime, ← Mockinx.resolveAndDeliver x o rule crud req permit out) :
          Sampler (Option BehaviorRuntime × Option CrudStore × Response)) rng) := by
    intro runtime permit rng
    have hends := @resolveAndDeliver_ends _ _ x o rule addr req permit out runtime crud calls calls'
      hcalls rng
    cases hgo : Mockinx.resolveAndDeliver x o rule crud req permit out rng with
    | error p =>
      rw [hgo] at hends
      rwa [sampler_bind_of_error hgo]
    | ok r =>
      rw [hgo] at hends
      rwa [sampler_bind_of_ok hgo]
  have hreject : ∀ (runtime : Option BehaviorRuntime) (reply : ReplySpec) (rng : Rng),
      Ends (draw (liftPanic (buildReplyResponse x reply))
          (⟨runtime, crud.map LockedStore.sound, calls⟩, rng))
        ((do return (runtime, crud, ← liftPanic (buildReplyResponse x reply)) :
          Sampler (Option BehaviorRuntime × Option CrudStore × Response)) rng) := by
    intro runtime reply rng
    rw [draw_apply]
    cases hbuild : liftPanic (buildReplyResponse x reply) rng with
    | error p =>
      rw [sampler_bind_of_error hbuild]
      rfl
    | ok r =>
      rw [sampler_bind_of_ok hbuild]
      exact ⟨rfl, rfl, rfl, rfl⟩
  rw [handleMatched, Mockinx.handleMatched, bind_apply, checkPolicies]
  cases runtime with
  | none => exact hproceed none false rng
  | some rt =>
    rcases hrate : rt.checkRate rule.behavior out.limiterNow with p | ⟨rt', _ | reply⟩
    · have hcheck : Mockinx.checkPolicies (some rt) rule.behavior out rng = .error p := by
        rw [Mockinx.checkPolicies, BehaviorRuntime.check]
        refine sampler_bind_of_error (sampler_bind_of_error (liftPanic_error hrate _))
      rw [sampler_bind_of_error hcheck]
      simp only [OptionT.mk, hrate]
      rfl
    · simp only [OptionT.mk, hrate, draw_apply]
      cases hconc : rt'.checkConcurrency rule.behavior out.granted rng with
      | error p =>
        have hcheck : Mockinx.checkPolicies (some rt) rule.behavior out rng = .error p := by
          rw [Mockinx.checkPolicies, BehaviorRuntime.check]
          refine sampler_bind_of_error ?_
          rw [sampler_bind_of_ok (liftPanic_ok.mpr ⟨hrate, rfl⟩)]
          exact sampler_bind_of_error hconc
        rw [sampler_bind_of_error hcheck]
        rfl
      | ok r =>
        have hcheck : Mockinx.checkPolicies (some rt) rule.behavior out rng =
            .ok ((some rt', r.1), r.2) := by
          rw [Mockinx.checkPolicies, sampler_bind_of_ok (rt.check_of_concurrency hrate hconc)]
          rfl
        rw [sampler_bind_of_ok hcheck]
        obtain ⟨verdict, rng₁⟩ := r
        cases verdict with
        | proceed permit => exact hproceed (some rt') permit rng₁
        | reject reply => exact hreject (some rt') reply rng₁
    · have hcheck : Mockinx.checkPolicies (some rt) rule.behavior out rng =
          .ok ((some rt', .reject reply), rng) := by
        rw [Mockinx.checkPolicies, sampler_bind_of_ok (rt.check_of_rate hrate _ _)]
        rfl
      rw [sampler_bind_of_ok hcheck]
      simp only [OptionT.mk, hrate]
      exact hreject (some rt') reply rng

end Agreement

/-- A call to the server: the peer's address, the request, whether its body breaks off, the
framework's answer if a body is not to its taste, the files as they are, and what else the
handling depends on. -/
structure Call (α : Type) where
  addr : α
  req : Request
  broken : Bool := false
  rejection : Option Response := none
  files : String → Except String (List UInt8)
  out : Outside
  rng : Rng

inductive Route where
  | list
  | append
  | replace
  | methodNotAllowed
  | request
  deriving DecidableEq

/-- The router: one path for the registry, and everything else. -/
def route (method path : String) : Route :=
  if path = "/_mx" then
    match method with
    | "GET" | "HEAD" => .list
    | "POST" => .append
    | "PUT" => .replace
    | _ => .methodNotAllowed
  else .request

/-- The framework's answer for a method that the registry's path does not have. -/
def wrongMethod : Response :=
  { status := 405, headers := [("allow", "GET,HEAD,POST,PUT")], body := .full [] }

/-- The most bytes that the handler reads of a request's body. -/
def bodyLimit : ℕ := 10 * 1024 * 1024

/-- The handler gives up on a body that breaks off or is too long. -/
def Call.unreadable {α : Type} (c : Call α) : Bool :=
  c.broken || decide (bodyLimit < c.req.body.length)

namespace AppState

variable {ι : Type}

def loadFrom (o : OverflowChecks) (handler : ι) (start : ℕ) :
    ℕ → List Rule → AppState ι → AppState ι × Bool
  | _, [], s => (s, true)
  | i, rule :: rules, s =>
    let s := s.setRuntime ⟨handler, i⟩ rule (start + i)
    match s.insertCrud o ⟨handler, i⟩ rule (start + i) with
    | .ok s => loadFrom o handler start (i + 1) rules (s.push ⟨handler, i⟩ rule (start + i))
    | .error _ => (s, false)

def load (o : OverflowChecks) (s : AppState ι) (handler : ι) (rules : List Rule) :
    AppState ι × Bool :=
  loadFrom o handler s.stubCounter 0 rules (s.fetchAdd rules.length)

/-- A registration that goes to the end is the one that does not panic. -/
theorem loadFrom_eq_true_iff {o : OverflowChecks} {handler : ι} {start i : ℕ} {rules : List Rule}
    {s t : AppState ι} : loadFrom o handler start i rules s = (t, true) ↔
      registerFrom o handler start i rules s = .ok t := by
  induction rules generalizing s i with
  | nil => simp [loadFrom, registerFrom]
  | cons rule rules ih =>
    simp only [loadFrom, registerFrom, registerRule]
    cases (s.setRuntime ⟨handler, i⟩ rule (start + i)).insertCrud o ⟨handler, i⟩ rule
        (start + i) with
    | ok s => exact ih
    | error p => simp [Except.map]

end AppState

/-- The server: the tables, the calls of each entry's sequence, which locks of resource stores are
poisoned, how many registry calls have registered rules, and whether the locks of the tables are
poisoned. -/
structure Server (α : Type) where
  app : AppState ℕ
  calls : Origin ℕ → ConnCounters α
  poisoned : Option (Origin ℕ) → Bool
  handlers : ℕ
  down : Bool

namespace Server

variable {α : Type}

def new : Server α where
  app := .new
  calls _ := { count := fun _ => 0 }
  poisoned _ := false
  handlers := 0
  down := false

def look (s : Server α) (e : RuleEntry ℕ) : RuleState α where
  runtime := (s.app.getRuntime e.index).map (·.value)
  crud := (s.app.getCrudStore e.index).map fun arc => ⟨arc.value, s.poisoned arc.origin⟩
  calls := s.calls e.origin

def change (s : Server α) (e : RuleEntry ℕ) (st : RuleState α) : Server α :=
  { s with
    app := { s.app with
      runtimes := s.app.runtimes.modify e.index fun arc =>
        { arc with value := st.runtime.getD arc.value }
      crudStores := Function.update s.app.crudStores e.index
        ((s.app.crudStores e.index).map fun arc =>
          { arc with value := (st.crud.map (·.store)).getD arc.value }) }
    calls := Function.update s.calls e.origin st.calls
    poisoned := match s.app.getCrudStore e.index, st.crud with
      | some arc, some store => Function.update s.poisoned arc.origin store.poisoned
      | _, _ => s.poisoned }

/-- Register rules under the locks of the tables. -/
def registerRules (o : OverflowChecks) (s : Server α) (rules : List Rule) : Server α × Bool :=
  if s.down then (s, false)
  else
    let (app, ok) := s.app.load o s.handlers rules
    ({ s with app, handlers := s.handlers + 1, down := !ok }, ok)

/-- Clear the entries, and then the other tables under their locks. -/
def clearAll (s : Server α) : Server α × Bool :=
  if s.down then ({ s with app := s.app.clearEntries }, false)
  else ({ s with app := s.app.clearAll }, true)

/-- POST /_mx -/
def handleAppendRules (x : External) (o : OverflowChecks) (s : Server α) (body : List UInt8) :
    Server α × Option Response :=
  match parseBodyAsRules x body with
  | .error _ => (s, none)
  | .ok (.error response) => (s, some response)
  | .ok (.ok rules) =>
    let (s, ok) := s.registerRules o rules
    (s, if ok then some (textResponse 201 (rulesMessage rules "added")) else none)

/-- PUT /_mx -/
def handleReplaceRules (x : External) (o : OverflowChecks) (s : Server α) (body : List UInt8) :
    Server α × Option Response :=
  match parseBodyAsRules x body with
  | .error _ => (s, none)
  | .ok (.error response) => (s, some response)
  | .ok (.ok rules) =>
    let (s, cleared) := s.clearAll
    if cleared then
      let (s, ok) := s.registerRules o rules
      (s, if ok then some (textResponse 200 (rulesMessage rules "loaded")) else none)
    else (s, none)

/-- Every other request, with the index of the rule that it finds. -/
def handleRequest [DecidableEq α] (x : External) (o : OverflowChecks) (s : Server α) (c : Call α) :
    Server α × Option ℕ × Option Response :=
  if c.unreadable then (s, none, some (textResponse 400 "failed to read body"))
  else
    match matchRequest s.app.entries c.req.method c.req.path with
    | none => (s, none, some (.ofStatus 404))
    | some e =>
      if s.down then (s, some e.index, none)
      else
        let (response, st, _) :=
          Handling.handleMatched x o e.rule c.addr c.req c.out (s.look e, c.rng)
        (s.change e st, some e.index, response)

/-- One call, with the rule that answers and its response; a handler that panics has none. -/
def serve [DecidableEq α] (x : External) (o : OverflowChecks) (s : Server α) (c : Call α) :
    Server α × Option ℕ × Option Response :=
  let x := { x with readFile := c.files }
  match route c.req.method c.req.path with
  | .list => (s, none, some (handleListRules s.app))
  | .methodNotAllowed => (s, none, some wrongMethod)
  | .append =>
    match c.rejection with
    | some response => (s, none, some response)
    | none =>
      let (s, response) := s.handleAppendRules x o c.req.body
      (s, none, response)
  | .replace =>
    match c.rejection with
    | some response => (s, none, some response)
    | none =>
      let (s, response) := s.handleReplaceRules x o c.req.body
      (s, none, response)
  | .request => s.handleRequest x o c

/-- A run of the server serves one call after the other. -/
def next [DecidableEq α] (x : External) (o : OverflowChecks) (s : Server α) (c : Call α) :
    Option (Server α × Option ℕ × Option Response) :=
  some (s.serve x o c)

end Server

end Mockinx
