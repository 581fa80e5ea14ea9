import Mockinx.Lib.Panic
import Mockinx.Lib.Text

/-!
Suggestions for an unknown key: synonyms, hints, and the nearest valid key by edit distance.
-/

set_option autoImplicit false
set_option relaxedAutoImplicit false

namespace Mockinx

open Lib Lib.Text

inductive Suggestion where
  | useKey (key : String)
  | hint (msg : String)
  deriving DecidableEq

def ruleAliases : List (String × String) :=
  [("response", "reply"), ("resp", "reply"), ("answer", "reply"), ("behavior", "serve"),
    ("behaviour", "serve"), ("delivery", "serve")]

def serveAliases : List (String × String) :=
  [("speed", "pace"), ("bandwidth", "pace"), ("rate", "pace"), ("duration", "pace"),
    ("span", "pace"), ("time", "pace"), ("delay", "first_byte"), ("latency", "first_byte"),
    ("wait", "first_byte"), ("concurrency", "conn"), ("connections", "conn"),
    ("max_connections", "conn"), ("rate_limit", "rps"), ("throttle", "rps"), ("freeze", "hang"),
    ("stall", "hang")]

def serveHints : List (String × String) :=
  [("fail", "use chaos: instead"), ("error", "use chaos: instead"),
    ("fault", "use chaos: instead"),
    ("chunk", "use pace: with @ syntax, e.g. pace: 1kb@100ms")]

def replyAliases : List (String × String) := [("status", "s"), ("headers", "h"), ("body", "b")]

def replyHints : List (String × String) := [("body_size", "use rand! or pattern! in b:")]

def ruleKeys : List String := ["match", "reply", "serve", "chaos"]

def serveKeys : List String := ["pace", "drop", "hang", "first_byte", "conn", "rps", "timeout"]

def replyKeys : List String := ["s", "h", "b"]

abbrev Table := Array (Array ℕ)

def readCell (dp : Table) (i j : ℕ) : Except Panic ℕ :=
  match dp[i]? with
  | some row => match row[j]? with
    | some n => .ok n
    | none => .error .outOfRange
  | none => .error .outOfRange

def writeCell (dp : Table) (i j n : ℕ) : Except Panic Table :=
  match dp[i]? with
  | some row => if j < row.size then .ok (dp.setIfInBounds i (row.setIfInBounds j n))
    else .error .outOfRange
  | none => .error .outOfRange

def readChar (a : List Char) (i : ℕ) : Except Panic Char :=
  match a[i]? with
  | some c => .ok c
  | none => .error .outOfRange

def fillCell (a b : List Char) (dp : Table) (i j : ℕ) : Except Panic Table := do
  let cost := if (← readChar a (i - 1)) = (← readChar b (j - 1)) then 0 else 1
  let deletion ← readCell dp (i - 1) j
  let insertion ← readCell dp i (j - 1)
  let substitution ← readCell dp (i - 1) (j - 1)
  writeCell dp i j (min (min (deletion + 1) (insertion + 1)) (substitution + cost))

/-- The edit distance table: borders first, then row by row. -/
def editDistance (a b : List Char) : Except Panic ℕ := do
  let dp : Table := Array.replicate (a.length + 1) (Array.replicate (b.length + 1) 0)
  let dp ← (List.range (a.length + 1)).foldlM (fun dp i => writeCell dp i 0 i) dp
  let dp ← (List.range (b.length + 1)).foldlM (fun dp j => writeCell dp 0 j j) dp
  let dp ← (List.range' 1 a.length).foldlM (fun dp i =>
    (List.range' 1 b.length).foldlM (fun dp j => fillCell a b dp i j) dp) dp
  readCell dp a.length b.length

def nearer (inputLower : List Char) (best : Option (String × ℕ)) (key : String) :
    Except Panic (Option (String × ℕ)) := do
  let dist ← editDistance inputLower key.toList
  if dist ≤ 2 ∧ 0 < dist then
    match best with
    | none => return some (key, dist)
    | some (_, d) => return if dist < d then some (key, dist) else best
  else
    return best

def suggestFrom (input : String) (aliases hints : List (String × String))
    (validKeys : List String) : Except Panic (Option Suggestion) :=
  let inputLower := toLowercase input.toList
  match aliases.find? fun p => inputLower == p.1.toList with
  | some (_, target) => .ok (some (.useKey target))
  | none =>
    match hints.find? fun p => inputLower == p.1.toList with
    | some (_, hint) => .ok (some (.hint hint))
    | none => do
      let best ← validKeys.foldlM (nearer inputLower) none
      return best.map fun p => .useKey p.1

def suggestRuleKey (input : String) : Except Panic (Option Suggestion) :=
  suggestFrom input ruleAliases [] ruleKeys

def suggestServeKey (input : String) : Except Panic (Option Suggestion) :=
  suggestFrom input serveAliases serveHints serveKeys

/-- Written for the reply block; the parser does not call it. -/
def suggestReplyKey (input : String) : Except Panic (Option Suggestion) :=
  suggestFrom input replyAliases replyHints replyKeys

def formatSuggestion (unknown block : String) (suggestion : Suggestion) : String :=
  match suggestion with
  | .useKey target => "unknown key '" ++ unknown ++ "' in " ++ block ++ " → use '" ++ target ++ "'"
  | .hint hint => "unknown key '" ++ unknown ++ "' in " ++ block ++ " → " ++ hint

example : suggestRuleKey "replay" = .ok (some (.useKey "reply")) := by decide

end Mockinx
