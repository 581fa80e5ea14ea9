import Mockinx.Lib.Panic
import Mockinx.Lib.Text
import Mockinx.Lib.Time

/-!
Byte sizes, durations and speeds, the ranges over them, and their parsers.
-/

set_option autoImplicit false
set_option relaxedAutoImplicit false

namespace Mockinx

open Lib Lib.Text

/-- A message, the field path it occurred at, and what was received instead. -/
structure ParseError where
  msg : String
  path : List String
  got : Option String
  deriving DecidableEq

namespace ParseError

def new (msg : String) : ParseError := ⟨msg, [], none⟩

def inField (e : ParseError) (field : String) : ParseError := { e with path := field :: e.path }

def inIndex (e : ParseError) (name : String) (idx : ℕ) : ParseError :=
  { e with path := (name ++ "[" ++ toString idx ++ "]") :: e.path }

def pathStr (e : ParseError) : String := ".".intercalate e.path

def toString (e : ParseError) : String :=
  (if e.path = [] then "" else e.pathStr ++ ": ") ++ e.msg ++
    match e.got with
    | some got => " (got " ++ got ++ ")"
    | none => ""

end ParseError

/-- A parser ends with a value, with an error that it reports, or with a panic. -/
inductive Failure where
  | error (e : ParseError)
  | panic (p : Panic)
  deriving DecidableEq

abbrev Parse (α : Type) := Except Failure α

def fail {α : Type} (msg : String) : Parse α := .error (.error (.new msg))

def okOr {α : Type} (v : Option α) (msg : String) : Parse α :=
  match v with
  | some a => .ok a
  | none => fail msg

def mapErr {α : Type} (r : Parse α) (f : ParseError → ParseError) : Parse α :=
  match r with
  | .ok a => .ok a
  | .error (.error e) => .error (.error (f e))
  | .error (.panic p) => .error (.panic p)

def orPanic {α : Type} (r : Except Panic α) : Parse α :=
  match r with
  | .ok a => .ok a
  | .error p => .error (.panic p)

def attempt {α : Type} (r : Parse α) : Parse (Option α) :=
  match r with
  | .ok a => .ok (some a)
  | .error (.error _) => .ok none
  | .error (.panic p) => .error (.panic p)

theorem parse_bind_ok {α β : Type} {m : Parse α} {f : α → Parse β} {b : β} :
    (m >>= f) = .ok b ↔ ∃ a, m = .ok a ∧ f a = .ok b := by
  cases m with
  | error e => simp [bind, Except.bind]
  | ok a => simp [bind, Except.bind]

theorem okOr_ok {α : Type} {v : Option α} {msg : String} {a : α} :
    okOr v msg = .ok a ↔ v = some a := by
  cases v <;> simp [okOr, fail]

theorem mapErr_ok {α : Type} {r : Parse α} {f : ParseError → ParseError} {a : α} :
    mapErr r f = .ok a ↔ r = .ok a := by
  rcases r with (e | p) | b <;> simp [mapErr]

/-- Interpolation and scaling, with the rank that orders the values. -/
class Scalable (α : Type) where
  rank : α → ℕ
  lerp : α → α → F64 → Except Panic α
  scale : α → F64 → Except Panic α

structure ByteSize where
  bytes : UInt64
  deriving DecidableEq

structure Speed where
  bytesPerSec : UInt64
  deriving DecidableEq

/-- Interpolation of two 64-bit integers through floats. -/
def lerpU64 (a b : UInt64) (t : F64) : UInt64 :=
  let x := F64.ofNat a.toNat
  let y := F64.ofNat b.toNat
  (x + (y - x) * t).toU64

def scaleU64 (a : UInt64) (factor : F64) : UInt64 := (F64.ofNat a.toNat * factor).toU64

instance : Scalable ByteSize where
  rank a := a.bytes.toNat
  lerp a b t := .ok ⟨lerpU64 a.bytes b.bytes t⟩
  scale a factor := .ok ⟨scaleU64 a.bytes factor⟩

instance : Scalable Speed where
  rank a := a.bytesPerSec.toNat
  lerp a b t := .ok ⟨lerpU64 a.bytesPerSec b.bytesPerSec t⟩
  scale a factor := .ok ⟨scaleU64 a.bytesPerSec factor⟩

/-- `Duration::from_secs_f64`, which panics where there is no such duration. -/
def fromSecsF64 (x : F64) : Except Panic Duration :=
  match Duration.fromSecsF64 x with
  | some d => .ok d
  | none => .error .invalidDuration

instance : Scalable Duration where
  rank a := a.nanos
  lerp a b t :=
    let min := a.asSecsF64
    let max := b.asSecsF64
    fromSecsF64 (min + (max - min) * t)
  scale a factor := fromSecsF64 (a.asSecsF64 * factor)

def byteUnits : List (List Char × ℕ) :=
  [("gb".toList, 1024 * 1024 * 1024), ("mb".toList, 1024 * 1024), ("kb".toList, 1024),
    ("b".toList, 1)]

def durationUnits : List (List Char × F64) :=
  [("ms".toList, F64.ofRat (1 / 1000)), ("s".toList, F64.ofNat 1), ("m".toList, F64.ofNat 60)]

def stripUnit {α : Type} (table : List (List Char × α)) (s : List Char) :
    Option (List Char × α) :=
  table.findSome? fun u => (stripSuffix u.1 s).map fun n => (n, u.2)

def parseByteSize (text : List Char) : Parse ByteSize := do
  let s := toLowercase (trim text)
  if s = [] then
    fail "empty byte size string"
  else
    let (numStr, multiplier) ← okOr (stripUnit byteUnits s)
      ("invalid byte size unit in '" ++ String.ofList s ++ "', expected b/kb/mb/gb")
    let num ← okOr (F64.parse numStr)
      ("invalid number in byte size '" ++ String.ofList s ++ "'")
    if num < 0 then
      fail ("byte size cannot be negative: '" ++ String.ofList s ++ "'")
    else
      return ⟨(num * F64.ofNat multiplier).toU64⟩

def parseDuration (text : List Char) : Parse Duration := do
  let s := toLowercase (trim text)
  if s = [] then
    fail "empty duration string"
  else
    let (numStr, factorSecs) ← okOr (stripUnit durationUnits s)
      ("invalid duration unit in '" ++ String.ofList s ++ "', expected ms/s/m")
    let num ← okOr (F64.parse numStr)
      ("invalid number in duration '" ++ String.ofList s ++ "'")
    if num < 0 then
      fail ("duration cannot be negative: '" ++ String.ofList s ++ "'")
    else
      orPanic (fromSecsF64 (num * factorSecs))

def parseSpeed (text : List Char) : Parse Speed := do
  let s := toLowercase (trim text)
  if s = [] then
    fail "empty speed string"
  else
    let sizeStr ← okOr (stripSuffix "/s".toList s)
      ("invalid speed format '" ++ String.ofList s ++ "', expected .../s")
    let byteSize ← parseByteSize sizeStr
    return ⟨byteSize.bytes⟩

/-- A fixed value or a range that is sampled uniformly. -/
inductive Range (α : Type) where
  | fixed (v : α)
  | minMax (min max : α)
  deriving DecidableEq

/-- A source of uniform draws, each a multiple of `2 ^ -53` below one. -/
structure Rng where
  draw : ℕ → Fin (2 ^ 53)

namespace Rng

def next (rng : Rng) : Rng := ⟨fun n => rng.draw (n + 1)⟩

/-- The float drawn next. -/
def float (rng : Rng) : F64 := F64.ofRat ((rng.draw 0 : ℕ) / (2 ^ 53 : ℕ))

end Rng

/-- Computations that draw random numbers and may panic. -/
abbrev Sampler := StateT Rng (Except Panic)

def drawFloat : Sampler F64 := fun rng => .ok (rng.float, rng.next)

def liftPanic {α : Type} (r : Except Panic α) : Sampler α := fun rng => r.map (·, rng)

theorem sampler_bind_ok {α β : Type} {m : Sampler α} {f : α → Sampler β} {rng rng' : Rng}
    {b : β} : (m >>= f) rng = .ok (b, rng') ↔
      ∃ a r, m rng = .ok (a, r) ∧ f a r = .ok (b, rng') := by
  change Except.bind (m rng) (fun p => f p.1 p.2) = _ ↔ _
  cases m rng with
  | error e => simp [Except.bind]
  | ok q => simp [Except.bind, Prod.ext_iff]

theorem sampler_pure_ok {α : Type} {a b : α} {rng rng' : Rng} :
    (pure a : Sampler α) rng = .ok (b, rng') ↔ a = b ∧ rng = rng' := by
  show (Except.ok (a, rng) : Except Panic (α × Rng)) = _ ↔ _
  simp

theorem liftPanic_ok {α : Type} {r : Except Panic α} {a : α} {rng rng' : Rng} :
    liftPanic r rng = .ok (a, rng') ↔ r = .ok a ∧ rng = rng' := by
  cases r with
  | error e => simp [liftPanic, Except.map]
  | ok b => simp [liftPanic, Except.map]

theorem liftPanic_error {α : Type} {r : Except Panic α} {p : Panic} (h : r = .error p)
    (rng : Rng) : liftPanic r rng = .error p := by
  subst h
  rfl

theorem sampler_bind_of_ok {α β : Type} {m : Sampler α} {f : α → Sampler β} {rng rng' : Rng}
    {a : α} (h : m rng = .ok (a, rng')) : (m >>= f) rng = f a rng' := by
  change Except.bind (m rng) (fun p => f p.1 p.2) = _
  rw [h]
  rfl

theorem sampler_bind_of_error {α β : Type} {m : Sampler α} {f : α → Sampler β} {rng : Rng}
    {p : Panic} (h : m rng = .error p) : (m >>= f) rng = .error p := by
  change Except.bind (m rng) (fun p => f p.1 p.2) = _
  rw [h]
  rfl

def Range.sample {α : Type} [Scalable α] : Range α → Sampler α
  | .fixed v => pure v
  | .minMax min max => do
    let t ← drawFloat
    liftPanic (Scalable.lerp min max t)

/-- `base`, `min..max` or `base..percent%`. -/
def parseRangeStr {α : Type} [Scalable α] (parse : List Char → Parse α) (text : List Char) :
    Parse (Range α) := do
  let s := trim text
  match splitOnce "..".toList s with
  | some (baseStr, rest) =>
    match stripSuffix "%".toList rest with
    | some pctStr =>
      let base ← parse baseStr
      let pct ← okOr (F64.parse pctStr) ("invalid percentage in '" ++ String.ofList s ++ "'")
      if pct < 0 then
        fail ("percentage cannot be negative: '" ++ String.ofList s ++ "'")
      else
        let fraction := pct / F64.ofNat 100
        if fraction.feq 0 then
          return .fixed base
        else
          let lo ← orPanic (Scalable.scale base (F64.ofNat 1 - fraction))
          let hi ← orPanic (Scalable.scale base (F64.ofNat 1 + fraction))
          return .minMax lo hi
    | none =>
      let min ← parse baseStr
      let max ← parse rest
      if Scalable.rank max < Scalable.rank min then
        fail ("range min > max in '" ++ String.ofList s ++ "'")
      else if Scalable.rank min = Scalable.rank max then
        return .fixed min
      else
        return .minMax min max
  | none =>
    let val ← parse s
    return .fixed val

def parseByteSizeRange (s : String) : Parse (Range ByteSize) :=
  parseRangeStr parseByteSize s.toList

def parseDurationRange (s : String) : Parse (Range Duration) :=
  parseRangeStr parseDuration s.toList

def parseSpeedRange (s : String) : Parse (Range Speed) :=
  parseRangeStr parseSpeed s.toList

example : parseByteSizeRange " 2KB" = .ok (.fixed ⟨2048⟩) := by decide +kernel

example : (parseDurationRange "1s..10%").toOption.map (fun r => match r with
    | .minMax lo hi => (lo.nanos, hi.nanos)
    | .fixed _ => (0, 0)) = some (900000000, 1100000000) := by decide +kernel

end Mockinx
