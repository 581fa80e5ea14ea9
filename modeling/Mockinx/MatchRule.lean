import Mockinx.External
import Mockinx.Units

/-!
Which requests a rule matches: any request, or a path with everything below it and optionally one
method.
-/

set_option autoImplicit false
set_option relaxedAutoImplicit false

namespace Mockinx

open Lib Lib.Text

inductive MatchRule where
  | catchAll
  | methodPath (method : Option String) (path : String)
  deriving DecidableEq

/-- Remove one trailing slash. -/
def normalizePath (path : List Char) : List Char := (stripSuffix "/".toList path).getD path

def pathMatches (rulePath path : List Char) : Bool :=
  let normalizedPath := normalizePath path
  let normalizedRule := normalizePath rulePath
  normalizedPath == normalizedRule ||
    (normalizedRule.isPrefixOf normalizedPath &&
      (normalizedPath.drop normalizedRule.length).head? == some '/')

def MatchRule.matches (rule : MatchRule) (method path : String) : Bool :=
  match rule with
  | .catchAll => true
  | .methodPath ruleMethod rulePath =>
    (match ruleMethod with
      | some m => eqIgnoreAsciiCase m method
      | none => true) && pathMatches rulePath.toList path.toList

/-- Parse a match rule: the text `_`, or an object with one method and its path. -/
def parseMatchRule (x : External) (v : Value) : Parse MatchRule :=
  match v with
  | .string s =>
    if s = "_" then .ok .catchAll
    else fail ("invalid match string '" ++ s ++ "', only '_' (catch-all) is allowed")
  | .object obj =>
    match obj.entries with
    | [] => fail "match object cannot be empty"
    | [(key, val)] => do
      let path ← okOr val.asStr ("match path must be a string, got " ++ toString val)
      let path := if path.toList.head? = some '/' then path else "/" ++ path
      if key = "_" then
        return .methodPath none path
      else
        match x.resolveMethod key with
        | some method => return .methodPath (some method) path
        | none => fail ("unknown method shortcut '" ++ key ++ "'")
    | _ => fail "match object must have exactly one key (method: path)"
  | _ => fail ("match must be a string or object, got " ++ toString v)

example : (MatchRule.methodPath (some "GET") "/toys").matches "get" "/toys/1" = true := by decide

example : (MatchRule.methodPath none "/toys").matches "GET" "/toysx" = false := by decide

end Mockinx
