import Mockinx.Reply
import Mockinx.Serve.Pace

/-!
Probabilistic overrides of the reply and of the delivery. The entries and their selection are
stated over any ordered number type, so that the selection can be read in floats or exactly.
-/

set_option autoImplicit false
set_option relaxedAutoImplicit false

namespace Mockinx

open Lib Lib.Text

/-- An override that applies to `p` percent of the requests. -/
structure ChaosEntry (F : Type) where
  p : F
  reply : Option ReplySpec
  serve : Option DeliverySpec

inductive ChaosResult where
  | normal
  | override (reply : Option ReplySpec) (serve : Option DeliverySpec)

def parsePercentage (v : Value) : Parse F64 := do
  let text ← okOr v.asStr "p must be a string like \"7%\""
  let s := trim text.toList
  let numStr ← okOr (stripSuffix "%".toList s)
    ("p must end with %, got '" ++ String.ofList s ++ "'")
  let p ← okOr (F64.parse (trim numStr)) ("invalid number in p: '" ++ String.ofList s ++ "'")
  if p < 0 then
    fail ("p cannot be negative: '" ++ String.ofList s ++ "'")
  else if F64.ofNat 100 < p then
    fail ("p cannot exceed 100%: '" ++ String.ofList s ++ "'")
  else
    return p

/-- The delivery override; one with no field set counts as absent. -/
def parseChaosServe (obj : Map) : Parse (Option DeliverySpec) :=
  match obj.get? "serve" with
  | none => .ok none
  | some v => do
    let serveObj ← okOr v.asObject "chaos serve must be an object"
    let spec ← parseDeliveryFields serveObj
    return if spec = {} then none else some spec

def parseChaosEntry (x : External) (totalP : F64) (item : Value) :
    Parse (F64 × ChaosEntry F64) := do
  let obj ← okOr item.asObject "chaos entry must be an object"
  let p ← parsePercentage (← okOr (obj.get? "p") "chaos entry requires 'p'")
  let totalP := totalP + p
  if F64.ofNat 100 < totalP then
    fail ("chaos percentages sum to " ++ x.showF64 totalP ++ "%, cannot exceed 100%")
  else
    let reply ← match obj.get? "reply" with
      | some v => do pure (some (← parseReply x v none))
      | none => pure none
    let serve ← parseChaosServe obj
    if reply.isNone && serve.isNone then
      fail "chaos entry must have 'reply' and/or 'serve'"
    else
      return (totalP, { p, reply, serve })

def parseChaosEntries (x : External) : F64 → List Value → Parse (List (ChaosEntry F64))
  | _, [] => .ok []
  | totalP, item :: items => do
    let (totalP, entry) ← parseChaosEntry x totalP item
    return entry :: (← parseChaosEntries x totalP items)

def parseChaos (x : External) (v : Value) : Parse (List (ChaosEntry F64)) := do
  let arr ← okOr v.asArray "chaos must be an array"
  if arr.isEmpty then
    fail "chaos array cannot be empty"
  else
    parseChaosEntries x 0 arr

/-- Scan the entries with the cumulative weight: the first whose total exceeds the roll. -/
def selectChaos {F : Type} [Add F] [LT F] [DecidableLT F] (roll : F) :
    F → List (ChaosEntry F) → ChaosResult
  | _, [] => .normal
  | cumulative, entry :: entries =>
    let cumulative := cumulative + entry.p
    if roll < cumulative then .override entry.reply entry.serve
    else selectChaos roll cumulative entries

/-- Resolve chaos for one request, given the roll in `[0, 100)`. -/
def resolveChaos {F : Type} [Zero F] [Add F] [LT F] [DecidableLT F]
    (entries : List (ChaosEntry F)) (roll : F) : ChaosResult :=
  selectChaos roll 0 entries

end Mockinx
