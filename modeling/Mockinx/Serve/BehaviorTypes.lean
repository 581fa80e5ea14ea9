import Mockinx.Reply

/-!
Endpoint policies: the concurrency limit, the rate limit and the timeout.
-/

set_option autoImplicit false
set_option relaxedAutoImplicit false

namespace Mockinx

open Lib

/-- What happens to a request over the concurrency limit. -/
inductive OverflowAction where
  | reply (r : ReplySpec)
  | block
  | blockWithTimeout (timeout : Range Duration) (andThen : ReplySpec)

structure ConcurrencySpec where
  max : UInt32
  «over» : OverflowAction

structure RateLimitSpec where
  rps : UInt32
  «over» : ReplySpec

structure BehaviorSpec where
  concurrency : Option ConcurrencySpec := none
  rateLimit : Option RateLimitSpec := none
  timeout : Option (Range Duration) := none

/-- `block`, a reply, or an object with `block` and `then`. -/
def parseOverflowAction (x : External) (obj : Map) : Parse OverflowAction := do
  let overVal ← okOr (obj.get? "over") "concurrency requires 'over' field"
  match overVal with
  | .string s =>
    if s = "block" then return .block
    else fail ("concurrency.over string must be 'block', got '" ++ s ++ "'")
  | .object overObj =>
    match overObj.get? "block" with
    | some blockVal =>
      let blockStr ← okOr blockVal.asStr "block timeout must be a string"
      let timeout ← parseDurationRange blockStr
      let thenVal ← okOr (overObj.get? "then") "block requires 'then' reply"
      let andThen ← parseReply x thenVal none
      return .blockWithTimeout timeout andThen
    | none => return .reply (← parseReply x overVal none)
  | _ => fail "concurrency.over must be a string or object"

/-- The limit is read as a 64-bit integer and narrowed to 32 bits. -/
def parseConn (x : External) (obj : Map) : Parse (Option ConcurrencySpec) :=
  match obj.get? "conn" with
  | none => .ok none
  | some val => do
    let cObj ← okOr val.asObject "conn must be an object"
    let max ← okOr ((cObj.get? "max").bind Value.asU64)
      "conn requires 'max' as a positive integer"
    if max = 0 then
      fail "conn max must be > 0"
    else
      let overAction ← parseOverflowAction x cObj
      return some { max := max.toUInt32, «over» := overAction }

def parseRps (x : External) (obj : Map) : Parse (Option RateLimitSpec) :=
  match obj.get? "rps" with
  | none => .ok none
  | some val => do
    let rlObj ← okOr val.asObject "rps must be an object"
    let max ← okOr ((rlObj.get? "max").bind Value.asU64)
      "rps requires 'max' as a positive integer"
    let overVal ← okOr (rlObj.get? "over") "rps requires 'over' reply"
    let overReply ← parseReply x overVal none
    return some { rps := max.toUInt32, «over» := overReply }

def parseTimeout (obj : Map) : Parse (Option (Range Duration)) :=
  match obj.get? "timeout" with
  | none => .ok none
  | some (.string s) => do return some (← parseDurationRange s)
  | some v => fail ("timeout must be a string, got " ++ toString v)

def parseBehavior (x : External) (v : Value) : Parse BehaviorSpec := do
  let obj ← okOr v.asObject "behavior must be an object"
  let concurrency ← parseConn x obj
  let rateLimit ← parseRps x obj
  let timeout ← parseTimeout obj
  return { concurrency, rateLimit, timeout }

end Mockinx
