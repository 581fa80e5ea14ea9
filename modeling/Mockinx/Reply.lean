import Mockinx.External
import Mockinx.Serve.CrudSpec

/-!
What a rule replies with: a status, headers and a body; a sequence of such replies; or a resource.
-/

set_option autoImplicit false
set_option relaxedAutoImplicit false

namespace Mockinx

open Lib

/-- The request fields that `reflect!` can echo. -/
inductive ReflectField where
  | method
  | headers
  | url
  | query
  | body
  deriving DecidableEq

inductive BodySpec where
  | none
  | literal (v : Value)
  | rand (size : ByteSize) (seed : UInt64)
  | pattern (repeated : String) (size : ByteSize)
  | reflect (fields : List ReflectField)
  | file (path : String)
  deriving DecidableEq

/-- Whether the body is a request echo that still has to be resolved. -/
def BodySpec.isReflect : BodySpec → Bool
  | .reflect _ => true
  | _ => false

structure ReplySpec where
  status : ℕ := 200
  headers : Map := ∅
  body : BodySpec := .none

inductive ReplyStrategy where
  | static (reply : ReplySpec)
  | sequence (replies : List ReplySpec)
  | crud (spec : CrudSpec) (headers : Map)

def ReplyStrategy.isCrud : ReplyStrategy → Bool
  | .crud _ _ => true
  | _ => false

def parseStatus (obj : Map) : Parse ℕ :=
  match obj.get? "s" with
  | none => .ok 200
  | some (.number n) => do
    let code ← okOr n.asU64 ("status must be a positive integer, got " ++ n.toString)
    if 999 < code then
      fail ("status code " ++ toString code.toNat ++ " out of range (0-999)")
    else
      return code.toNat
  | some v => fail ("status must be a number, got " ++ toString v)

def parseHeaders (x : External) (obj : Map) : Parse Map :=
  match obj.get? "h" with
  | none => .ok ∅
  | some (.object h) => .ok (x.expandHeaders h)
  | some v => fail ("headers must be an object, got " ++ toString v)

def parseReflectField (s : String) : Parse ReflectField :=
  if s = "i.m" then .ok .method
  else if s = "i.h" then .ok .headers
  else if s = "i.u" then .ok .url
  else if s = "i.q" then .ok .query
  else if s = "i.b" then .ok .body
  else fail ("unknown reflect field: " ++ s ++ " (expected i.m, i.h, i.u, i.q, i.b)")

/-- `true` for every field except the body, or an explicit list of fields. -/
def parseReflectBody (val : Value) : Parse BodySpec :=
  match val with
  | .bool true => .ok (.reflect [.method, .headers, .url, .query])
  | .array arr => do
    let fields ← arr.mapM fun v => do
      parseReflectField (← okOr v.asStr "reflect! array elements must be strings")
    if fields = [] then
      fail "reflect! array cannot be empty"
    else
      return .reflect fields
  | _ => fail "reflect! must be true or an array of field names"

def parseRandBody (val : Value) : Parse BodySpec := do
  let randObj ← okOr val.asObject "rand must be an object"
  let sizeVal ← okOr (randObj.get? "size") "rand requires 'size' field"
  let sizeStr ← okOr sizeVal.asStr "rand size must be a string"
  let size ← parseByteSize sizeStr.toList
  let seed ← okOr ((randObj.get? "seed").bind Value.asU64)
    "rand requires 'seed' as a positive integer"
  return .rand size seed

def parsePatternBody (val : Value) : Parse BodySpec := do
  let patternObj ← okOr val.asObject "pattern must be an object"
  let repeated ← okOr ((patternObj.get? "repeat").bind Value.asStr)
    "pattern requires 'repeat' string"
  if repeated = "" then
    fail "pattern repeat string cannot be empty"
  else
    let sizeVal ← okOr (patternObj.get? "size") "pattern requires 'size' field"
    let sizeStr ← okOr sizeVal.asStr "pattern size must be a string"
    let size ← parseByteSize sizeStr.toList
    return .pattern repeated size

def resolvePath (path : String) (baseDir : Option String) : String :=
  if path.toList.head? = some '/' then path
  else match baseDir with
    | some base => if base = "" ∨ base.toList.getLast? = some '/' then base ++ path
      else base ++ "/" ++ path
    | none => path

/-- A directive, recognised by its `!` key in this order, or a literal. -/
def parseBody (obj : Map) (baseDir : Option String) : Parse BodySpec :=
  match obj.get? "b" with
  | none => .ok .none
  | some (.object b) =>
    match b.get? "rand!" with
    | some val => parseRandBody val
    | none =>
      match b.get? "pattern!" with
      | some val => parsePatternBody val
      | none =>
        match b.get? "reflect!" with
        | some val => parseReflectBody val
        | none =>
          match b.get? "file!" with
          | some val => do
            let path ← okOr val.asStr "file! must be a string path"
            return .file (resolvePath path baseDir)
          | none => .ok (.literal (.object b))
  | some v => .ok (.literal v)

def parseReply (x : External) (v : Value) (baseDir : Option String) : Parse ReplySpec := do
  let obj ← okOr v.asObject "reply must be an object"
  let status ← parseStatus obj
  let headers ← parseHeaders x obj
  let body ← parseBody obj baseDir
  return { status, headers, body }

/-- A sequence for an array, a resource for an object with `crud!`, else a static reply. -/
def parseReplyStrategy (x : External) (v : Value) (baseDir : Option String) :
    Parse ReplyStrategy :=
  match v with
  | .array arr =>
    if arr.isEmpty then fail "reply sequence cannot be empty"
    else do return .sequence (← arr.mapM fun item => parseReply x item baseDir)
  | .object obj =>
    match obj.get? "crud!" with
    | some crudVal => do
      let spec ← if crudVal.asBool = some true then pure ({} : CrudSpec)
        else do
          let crudObj ← okOr crudVal.asObject "crud! must be true or an object"
          parseCrudSpec crudObj
      let headers := ((obj.get? "h").bind Value.asObject).getD ∅
      return .crud spec (x.expandHeaders headers)
    | none => do return .static (← parseReply x v baseDir)
  | _ => fail ("reply must be an object or array, got " ++ toString v)

end Mockinx
