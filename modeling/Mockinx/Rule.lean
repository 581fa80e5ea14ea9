import Mockinx.Chaos
import Mockinx.MatchRule
import Mockinx.Serve

/-!
A rule: what it matches, what it replies, how the reply is served, and what can go wrong.
-/

set_option autoImplicit false
set_option relaxedAutoImplicit false

namespace Mockinx

open Lib

structure Rule where
  matchRule : MatchRule
  reply : ReplyStrategy
  delivery : DeliverySpec
  behavior : BehaviorSpec
  chaos : Option (List (ChaosEntry F64))
  source : Value

def ruleKnownKeys : List String := ["match", "reply", "serve", "chaos"]

def parseRule (x : External) (v : Value) (baseDir : Option String) : Parse Rule := do
  let obj ← okOr v.asObject "rule must be an object"
  checkKeys ruleKnownKeys suggestRuleKey "rule" obj.keys
  let matchVal ← okOr (obj.get? "match") "rule requires 'match' field"
  let matchRule ← mapErr (parseMatchRule x matchVal) (·.inField "match")
  let replyVal ← okOr (obj.get? "reply")
    "missing 'reply' — every rule needs a reply (static, sequence, or crud!)"
  let reply ← mapErr (parseReplyStrategy x replyVal baseDir) (·.inField "reply")
  let (delivery, behavior) ← match obj.get? "serve" with
    | some serveVal => mapErr (parseServe x serveVal) (·.inField "serve")
    | none => pure (({} : DeliverySpec), ({} : BehaviorSpec))
  let chaos ← match obj.get? "chaos" with
    | none => pure none
    | some c => do pure (some (← mapErr (parseChaos x c) (·.inField "chaos")))
  return { matchRule, reply, delivery, behavior, chaos, source := v }

def parseRuleList (x : External) (baseDir : Option String) : ℕ → List Value → Parse (List Rule)
  | _, [] => .ok []
  | i, item :: items => do
    let rule ← mapErr (parseRule x item baseDir) (·.inIndex "rule" i)
    return rule :: (← parseRuleList x baseDir (i + 1) items)

/-- A single rule object, or an array of them. -/
def parseRules (x : External) (v : Value) (baseDir : Option String) : Parse (List Rule) :=
  match v with
  | .array arr => parseRuleList x baseDir 0 arr
  | .object _ => do return [← parseRule x v baseDir]
  | _ => fail "rules must be an object or array"

end Mockinx
