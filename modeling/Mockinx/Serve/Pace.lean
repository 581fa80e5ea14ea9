import Mockinx.Json
import Mockinx.Units

/-!
Delivery shaping of a response: pacing, drop, hang and the delay before the first byte.
-/

set_option autoImplicit false
set_option relaxedAutoImplicit false

namespace Mockinx

open Lib Lib.Text

/-- When to close the connection. -/
inductive DropSpec where
  | afterBytes (n : Range ByteSize)
  | afterTime (d : Range Duration)
  deriving DecidableEq

/-- When to stop sending and keep the connection open. -/
inductive HangSpec where
  | afterBytes (n : Range ByteSize)
  | afterTime (d : Range Duration)
  deriving DecidableEq

/-- A target duration, a bandwidth cap or explicit chunks. -/
inductive PaceSpec where
  | duration (d : Range Duration)
  | speed (s : Range Speed)
  | chunk (size : Range ByteSize) (interval : Range Duration)
  deriving DecidableEq

structure DeliverySpec where
  pace : Option PaceSpec := none
  drop : Option DropSpec := none
  hang : Option HangSpec := none
  firstByte : Option (Range Duration) := none
  deriving DecidableEq

/-- Dispatch on the sigils of the raw text: `@` for chunks, `/s` for a speed, else a duration. -/
def parsePaceStr (text : String) : Parse PaceSpec := do
  let s := trim text.toList
  match splitOnce "@".toList s with
  | some (sizeStr, intervalStr) =>
    let size ← parseByteSizeRange (String.ofList sizeStr)
    let interval ← parseDurationRange (String.ofList intervalStr)
    return .chunk size interval
  | none =>
    if (splitOnce "/s".toList s).isSome then
      return .speed (← parseSpeedRange (String.ofList s))
    else
      return .duration (← parseDurationRange (String.ofList s))

def parsePace (obj : Map) : Parse (Option PaceSpec) :=
  match obj.get? "pace" with
  | none => .ok none
  | some paceVal => do
    let s ← okOr paceVal.asStr "pace must be a string"
    return some (← parsePaceStr s)

def parseDropValue (s : String) : Parse (Option DropSpec) := do
  match ← attempt (parseByteSizeRange s) with
  | some range => return some (.afterBytes range)
  | none =>
    match ← attempt (parseDurationRange s) with
    | some range => return some (.afterTime range)
    | none => fail ("drop '" ++ s ++ "' is neither a valid byte size nor duration")

/-- A scalar, or the older object form with an `after` field. -/
def parseDrop (obj : Map) : Parse (Option DropSpec) :=
  match obj.get? "drop" with
  | none => .ok none
  | some (.string s) => parseDropValue s
  | some (.object dropObj) => do
    let after ← okOr ((dropObj.get? "after").bind Value.asStr)
      "drop object requires 'after' string field"
    parseDropValue after
  | some _ => fail "drop must be a string or object"

def parseHang (obj : Map) : Parse (Option HangSpec) :=
  match obj.get? "hang" with
  | none => .ok none
  | some hangVal => do
    let s ← okOr hangVal.asStr "hang must be a string (e.g. '1s', '10kb')"
    match ← attempt (parseByteSizeRange s) with
    | some range => return some (.afterBytes range)
    | none =>
      match ← attempt (parseDurationRange s) with
      | some range => return some (.afterTime range)
      | none => fail ("hang '" ++ s ++ "' is neither a valid byte size nor duration")

/-- A scalar, or the older object form with a `delay` field. -/
def parseFirstByte (obj : Map) : Parse (Option (Range Duration)) :=
  match obj.get? "first_byte" with
  | none => .ok none
  | some (.string s) => do return some (← parseDurationRange s)
  | some (.object fbObj) => do
    let delayStr ← okOr ((fbObj.get? "delay").bind Value.asStr)
      "first_byte object requires 'delay' string field"
    return some (← parseDurationRange delayStr)
  | some _ => fail "first_byte must be a string or object"

/-- The delivery subset of the `serve` keys. -/
def parseDeliveryFields (obj : Map) : Parse DeliverySpec := do
  let pace ← parsePace obj
  let drop ← parseDrop obj
  let hang ← parseHang obj
  let firstByte ← parseFirstByte obj
  return { pace, drop, hang, firstByte }

end Mockinx
