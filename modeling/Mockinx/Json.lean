import Mathlib.Algebra.Ring.Int.Defs
import Mockinx.Lib.IndexMap

/-!
JSON values as the program holds them: 64-bit integers, finite floats, and objects that keep the
insertion order of their distinct keys. A float is identified by its shortest decimal text, which
is all the program ever observes of it.
-/

set_option autoImplicit false
set_option relaxedAutoImplicit false

namespace Mockinx

open Lib

/-- The printed form of a finite float, which always has a point or an exponent. -/
structure FloatText where
  text : String
  fractional : (text.toList.any fun c => c == '.' || c == 'e') = true
  deriving DecidableEq

/-- A JSON number. Non-negative integers are `posInt`; the other integers are negative. -/
inductive Number where
  | posInt (n : UInt64)
  | negInt (i : {i : Int // -(2 ^ 63) ≤ i ∧ i < 0})
  | float (t : FloatText)
  deriving DecidableEq

namespace Number

def asU64 : Number → Option UInt64
  | .posInt n => some n
  | _ => none

def toString : Number → String
  | .posInt n => ToString.toString n.toNat
  | .negInt i => "-" ++ ToString.toString i.1.natAbs
  | .float t => t.text

def ofI64 (i : Int) : Number :=
  if h : -(2 ^ 63) ≤ i ∧ i < 0 then .negInt ⟨i, h⟩ else .posInt (UInt64.ofNat i.toNat)

end Number

/-- A JSON value. -/
inductive Value where
  | null
  | bool (b : Bool)
  | number (n : Number)
  | string (s : String)
  | array (xs : List Value)
  | object (m : IndexMap String Value)

abbrev Map := IndexMap String Value

namespace Value

mutual
def decEq : (a b : Value) → Decidable (a = b)
  | .null, b => match b with
    | .null => isTrue rfl
    | .bool _ | .number _ | .string _ | .array _ | .object _ => isFalse nofun
  | .bool a, b => match b with
    | .bool b => decidable_of_iff (a = b) (by simp)
    | .null | .number _ | .string _ | .array _ | .object _ => isFalse nofun
  | .number a, b => match b with
    | .number b => decidable_of_iff (a = b) (by simp)
    | .null | .bool _ | .string _ | .array _ | .object _ => isFalse nofun
  | .string a, b => match b with
    | .string b => decidable_of_iff (a = b) (by simp)
    | .null | .bool _ | .number _ | .array _ | .object _ => isFalse nofun
  | .array a, b => match b with
    | .array b => match decEqList a b with
      | isTrue h => isTrue (h ▸ rfl)
      | isFalse h => isFalse (by simpa using h)
    | .null | .bool _ | .number _ | .string _ | .object _ => isFalse nofun
  | .object ⟨ks, _, vs⟩, b => match b with
    | .object ⟨ls, _, ws⟩ =>
      if h : ks = ls then
        have : DecidablePred fun i : Fin ks.length => vs i = ws (i.cast (h ▸ rfl)) :=
          fun i => decEq (vs i) (ws (i.cast (h ▸ rfl)))
        decidable_of_iff (∀ i : Fin ks.length, vs i = ws (i.cast (h ▸ rfl)))
          (by subst h; simp [funext_iff])
      else isFalse (by simp [h])
    | .null | .bool _ | .number _ | .string _ | .array _ => isFalse nofun

def decEqList : (a b : List Value) → Decidable (a = b)
  | [], [] => isTrue rfl
  | a :: as, b :: bs => match decEq a b, decEqList as bs with
    | isTrue h, isTrue h' => isTrue (by rw [h, h'])
    | isFalse h, _ => isFalse (by simp [h])
    | _, isFalse h => isFalse (by simp [h])
  | [], _ :: _ => isFalse (by simp)
  | _ :: _, [] => isFalse (by simp)
end

instance : DecidableEq Value := decEq

def asStr : Value → Option String
  | .string s => some s
  | _ => none

def asBool : Value → Option Bool
  | .bool b => some b
  | _ => none

def asU64 : Value → Option UInt64
  | .number n => n.asU64
  | _ => none

def asObject : Value → Option Map
  | .object m => some m
  | _ => none

theorem asObject_eq_some {v : Value} {m : Map} : v.asObject = some m ↔ v = .object m := by
  cases v <;> simp [asObject]

def asArray : Value → Option (List Value)
  | .array xs => some xs
  | _ => none

def get? (v : Value) (k : String) : Option Value :=
  match v with
  | .object m => m.get? k
  | _ => none

def ofNat (n : UInt64) : Value := .number (.posInt n)

/-- An object from pairs with distinct keys. -/
def obj (l : List (String × Value)) (h : (l.map Prod.fst).Nodup) : Value :=
  .object (IndexMap.ofEntries l h)

def escapeChar (c : Char) : List Char :=
  if c = '"' then ['\\', '"']
  else if c = '\\' then ['\\', '\\']
  else if c.toNat = 0x08 then ['\\', 'b']
  else if c.toNat = 0x09 then ['\\', 't']
  else if c.toNat = 0x0A then ['\\', 'n']
  else if c.toNat = 0x0C then ['\\', 'f']
  else if c.toNat = 0x0D then ['\\', 'r']
  else if c.toNat < 0x20 then
    ['\\', 'u', '0', '0', Nat.digitChar (c.toNat / 16), Nat.digitChar (c.toNat % 16)]
  else [c]

def quote (s : String) : String := "\"" ++ String.ofList (s.toList.flatMap escapeChar) ++ "\""

mutual
/-- The compact text of a value. -/
def toString : Value → String
  | .null => "null"
  | .bool b => if b then "true" else "false"
  | .number n => n.toString
  | .string s => quote s
  | .array xs => "[" ++ ",".intercalate (toStringList xs) ++ "]"
  | .object ⟨ks, _, vs⟩ =>
    "\x7b" ++ ",".intercalate (List.ofFn fun i : Fin ks.length =>
      quote (ks.get i) ++ ":" ++ toString (vs i)) ++ "\x7d"

def toStringList : List Value → List String
  | [] => []
  | v :: vs => toString v :: toStringList vs
end

instance : ToString Value := ⟨toString⟩

example : (obj [("a", .array [.null, ofNat 3]), ("b", .string "x\"")] (by decide)).toString =
    "\x7b\"a\":[null,3],\"b\":\"x\\\"\"\x7d" := by decide

end Value

end Mockinx
