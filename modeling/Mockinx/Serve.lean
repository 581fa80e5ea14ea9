import Mockinx.Serve.BehaviorTypes
import Mockinx.Serve.Pace
import Mockinx.Suggest

/-!
The merged `serve` block: delivery shaping and endpoint policies under one set of keys.
-/

set_option autoImplicit false
set_option relaxedAutoImplicit false

namespace Mockinx

open Lib

def checkKeys (known : List String) (suggest : String → Except Panic (Option Suggestion))
    (block : String) (keys : List String) : Parse Unit :=
  match keys.find? fun key => !known.contains key with
  | none => .ok ()
  | some key => do
    match ← orPanic (suggest key) with
    | some suggestion => fail (formatSuggestion key block suggestion)
    | none => fail ("unknown key '" ++ key ++ "' in " ++ block)

def serveKnownKeys : List String :=
  ["pace", "drop", "hang", "first_byte", "conn", "rps", "timeout"]

def parseServe (x : External) (v : Value) : Parse (DeliverySpec × BehaviorSpec) := do
  let obj ← okOr v.asObject "serve must be an object"
  checkKeys serveKnownKeys suggestServeKey "serve" obj.keys
  let delivery ← parseDeliveryFields obj
  let behavior ← parseBehavior x v
  return (delivery, behavior)

end Mockinx
