import Mockinx.Reply.Body
import Mockinx.Reply.Crud
import Mockinx.Rule
import Mockinx.Serve.Engine
import Mockinx.Serve.Runtime

/-!
From a matched rule to a response: the limits, the chaos roll, the reply strategy, the request
echo, and the two response builders.
-/

set_option autoImplicit false
set_option relaxedAutoImplicit false

namespace Mockinx

open Lib Lib.Text

/-- What the handler reads of a request. A header value that is not visible ASCII has no text. -/
structure Request where
  method : String
  path : String
  query : String
  headers : List (String × Option String)
  body : List UInt8
  deriving Inhabited

/-- What else the handling of one request depends on: the clock at the limiter and at the two
deadlines, the semaphore's answer, the call count of a sequence, and a fresh UUID. -/
structure Outside where
  limiterNow : Instant
  granted : Bool
  callIdx : UInt64
  uuid : String
  dropNow : Instant
  hangNow : Instant

inductive ResponseBody where
  | full (bytes : List UInt8)
  /-- A shaped stream, and whether it holds a concurrency permit. -/
  | stream (inner : DeliveryStream) (permit : Bool)

structure Response where
  status : ℕ
  headers : List (String × String)
  body : ResponseBody

/-- A bare status. -/
def Response.ofStatus (status : ℕ) : Response := { status, headers := [], body := .full [] }

def hexByte (hi lo : UInt8) : List Char :=
  let digit (b : UInt8) : Option ℕ :=
    if 0x30 ≤ b ∧ b ≤ 0x39 then some (b.toNat - 0x30)
    else if 0x61 ≤ b ∧ b ≤ 0x66 then some (b.toNat - 0x61 + 10)
    else if 0x41 ≤ b ∧ b ≤ 0x46 then some (b.toNat - 0x41 + 10)
    else none
  match digit hi, digit lo with
  | some h, some l => [Char.ofNat (h * 16 + l)]
  | _, _ => []

/-- Each byte becomes one character; a percent sign takes up the two bytes after it. -/
def urldecodeBytes : List UInt8 → List Char
  | [] => []
  | b :: rest =>
    if b = 0x2B then ' ' :: urldecodeBytes rest
    else if b = 0x25 then
      match rest with
      | hi :: lo :: rest => hexByte hi lo ++ urldecodeBytes rest
      | _ => []
    else Char.ofNat b.toNat :: urldecodeBytes rest

def urldecode (s : String) : String := String.ofList (urldecodeBytes (utf8 s))

/-- The decoded pairs of a query; a later pair overwrites an earlier one with its key. -/
def queryMap (query : String) : Map :=
  if query = "" then ∅
  else (query.toList.splitOn '&').foldl (fun q pair =>
    let (key, val) := (splitOnce ['='] pair).getD (pair, [])
    q.insert (urldecode (String.ofList key)) (.string (urldecode (String.ofList val)))) ∅

/-- A request body as JSON: the value it holds, else its text, else null. -/
def bodyValue (x : External) (bytes : List UInt8) : Value :=
  if bytes = [] then .null
  else
    match x.fromSlice bytes with
    | some json => json
    | none =>
      match String.fromUTF8? ⟨bytes.toArray⟩ with
      | some s => .string s
      | none => .null

def reflectField (x : External) (req : Request) (inner : Map) : ReflectField → Map
  | .method => inner.insert "m" (.string req.method)
  | .headers => inner.insert "h" (.object (req.headers.foldl
      (fun h e => h.insert e.1 (.string (e.2.getD ""))) ∅))
  | .url => inner.insert "u" (.string req.path)
  | .query => inner.insert "q" (.object (queryMap req.query))
  | .body => inner.insert "b" (bodyValue x req.body)

/-- Replace a request echo by the literal it stands for; other bodies are kept. -/
def resolveReflect (x : External) (reply : ReplySpec) (req : Request) : ReplySpec :=
  match reply.body with
  | .reflect fields =>
    let inner := fields.foldl (reflectField x req) ∅
    { reply with
      body := .literal (.object ((∅ : Map).insert "i" (.object inner)))
      headers :=
        if reply.headers.containsKey "content-type" then reply.headers
        else reply.headers.insert "content-type" (.string "application/json") }
  | _ => reply

/-- The potential id in a request path: its last segment, when there are at least two. -/
def crudRequestId (path : List Char) : Option (List Char) :=
  let segments := (trimMatches '/' path).splitOn '/'
  if 2 ≤ segments.length then segments.getLast? else none

def crudRequestBody (x : External) (bytes : List UInt8) : Value :=
  if bytes = [] then .null else (x.fromSlice bytes).getD .null

def crudOp (method : String) (id : Option String) (uuid : String) (body : Value) : CrudOp :=
  match toAsciiUppercase method, id with
  | "GET", none => .list
  | "GET", some id => .get id
  | "POST", none => .create uuid body
  | "PUT", some id => .replace id body
  | "PATCH", some id => .patch id body
  | "DELETE", some id => .delete id
  | _, _ => .methodNotAllowed

/-- The operation that a request is routed to. -/
def crudRequestOp (x : External) (req : Request) (uuid : String) : CrudOp :=
  crudOp req.method ((crudRequestId req.path.toList).map String.ofList) uuid
    (crudRequestBody x req.body)

/-- Perform the operation of a request on the store, and turn the answer into a reply. -/
def resolveCrudReply (x : External) (o : OverflowChecks) (headers : Map) (store : CrudStore)
    (req : Request) (uuid : String) : Except Panic (CrudStore × ReplySpec) :=
  (store.apply o (crudRequestOp x req uuid)).map fun r =>
    let (store, status, body) := r
    (store, { status, headers,
              body := if body = .null ∧ status = 204 then .none else .literal body })

/-- The content type of a reply that does not set one. -/
def inferContentType (reply : ReplySpec) : Option String :=
  if reply.headers.keys.any fun k => eqIgnoreAsciiCase k "content-type" then none
  else
    match reply.body with
    | .literal (.object _) | .literal (.array _) => some "application/json"
    | .literal (.string _) => some "text/plain"
    | _ => none

/-- Append a header to those of a response under construction, unless the map is full. -/
def appendHeader (x : External) (headers : List (String × String)) (name value : String) :
    Option (List (String × String)) :=
  if (headers.map Prod.fst).eraseDups.length < x.maxHeaders then some (headers ++ [(name, value)])
  else none

/-- The headers of a reply: the inferred content type, then each configured one that is valid. -/
def responseHeaders (x : External) (reply : ReplySpec) : Option (List (String × String)) :=
  let start : Option (List (String × String)) :=
    match inferContentType reply with
    | some ct => appendHeader x [] "content-type" ct
    | none => some []
  reply.headers.entries.foldl (fun headers e =>
    match e.2.asStr with
    | some v =>
      match x.headerName e.1 with
      | some name => if x.headerValue v then headers.bind (appendHeader x · name v) else headers
      | none => headers
    | none => headers) start

/-- A response with the status and headers of a reply; a builder error gives a bare 500. -/
def buildResponse (x : External) (reply : ReplySpec) (body : ResponseBody) : Response :=
  if 100 ≤ reply.status ∧ reply.status ≤ 999 then
    match responseHeaders x reply with
    | some headers => { status := reply.status, headers, body }
    | none => .ofStatus 500
  else .ofStatus 500

/-- A response with the full body at once. -/
def buildReplyResponse (x : External) (reply : ReplySpec) : Except Panic Response :=
  (generateBody x reply.body).map fun bytes => buildResponse x reply (.full bytes)

/-- A response with delivery shaping. A permit lives on in a shaped stream. -/
def buildDeliveryResponse (x : External) (reply : ReplySpec) (delivery : DeliverySpec)
    (permit : Bool) (out : Outside) : Sampler Response := do
  let bytes ← liftPanic (generateBody x reply.body)
  if delivery = {} then
    liftPanic (buildReplyResponse x reply)
  else
    let stream ← deliver bytes delivery out.dropNow out.hangNow
    return buildResponse x reply (.stream stream permit)

/-- Run the response builder under the timeout. The builder never waits, so it is done at its first
poll and the timeout, which is only drawn, cannot fire. -/
def withTimeout (timeout : Option (Range Duration)) (inner : Sampler Response) :
    Sampler Response :=
  match timeout with
  | some range => do
    let _ ← range.sample
    inner
  | none => inner

/-- Roll for the chaos overrides of the reply and of the delivery. -/
def rollChaos (chaos : Option (List (ChaosEntry F64))) :
    Sampler (Option ReplySpec × Option DeliverySpec) :=
  match chaos with
  | some entries => do
    let roll ← drawFloat
    match resolveChaos entries (roll * F64.ofNat 100) with
    | .normal => return (none, none)
    | .override reply serve => return (reply, serve)
  | none => return (none, none)

/-- The reply of a strategy; a resource whose store is gone has none. -/
def resolveStrategy (x : External) (o : OverflowChecks) (strategy : ReplyStrategy)
    (crud : Option CrudStore) (req : Request) (out : Outside) :
    Except Panic (Option CrudStore × Option ReplySpec) :=
  match strategy with
  | .static r => .ok (crud, some r)
  | .sequence replies =>
    match replies[out.callIdx.toNat % replies.length]? with
    | some r => .ok (crud, some r)
    | none => .error .divideByZero
  | .crud _ headers =>
    match crud with
    | some store =>
      (resolveCrudReply x o headers store req out.uuid).map fun r => (some r.1, some r.2)
    | none => .ok (none, none)

/-- From an admitted request to its response; the resource store may change on the way. -/
def resolveAndDeliver (x : External) (o : OverflowChecks) (rule : Rule) (crud : Option CrudStore)
    (req : Request) (permit : Bool) (out : Outside) : Sampler (Option CrudStore × Response) := do
  let (chaosReply, chaosDelivery) ← rollChaos rule.chaos
  let delivery := chaosDelivery.getD rule.delivery
  match chaosReply with
  | some reply =>
    return (crud, ← withTimeout rule.behavior.timeout
      (buildDeliveryResponse x reply delivery permit out))
  | none =>
    let (crud, reply) ← liftPanic (resolveStrategy x o rule.reply crud req out)
    match reply with
    | some reply =>
      return (crud, ← withTimeout rule.behavior.timeout
        (buildDeliveryResponse x (resolveReflect x reply req) delivery permit out))
    | none => return (crud, .ofStatus 500)

/-- The verdict of the limits on a request; without a runtime there are none. -/
def checkPolicies (runtime : Option BehaviorRuntime) (spec : BehaviorSpec) (out : Outside) :
    Sampler (Option BehaviorRuntime × BehaviorResult) :=
  match runtime with
  | some rt => do
    let (rt, result) ← rt.check spec out.limiterNow out.granted
    return (some rt, result)
  | none => return (none, .proceed false)

/-- Handle a request that matched a rule, with the runtime and the resource store that were looked
up for it. -/
def handleMatched (x : External) (o : OverflowChecks) (rule : Rule)
    (runtime : Option BehaviorRuntime) (crud : Option CrudStore) (req : Request) (out : Outside) :
    Sampler (Option BehaviorRuntime × Option CrudStore × Response) := do
  let (runtime, verdict) ← checkPolicies runtime rule.behavior out
  match verdict with
  | .reject reply => return (runtime, crud, ← liftPanic (buildReplyResponse x reply))
  | .proceed permit =>
    return (runtime, ← resolveAndDeliver x o rule crud req permit out)

end Mockinx
