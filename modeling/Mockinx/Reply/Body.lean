import Mockinx.Reply

/-!
Generation of a complete body from its specification.
-/

set_option autoImplicit false
set_option relaxedAutoImplicit false

namespace Mockinx

open Lib

def utf8 (s : String) : List UInt8 := s.toUTF8.data.toList

theorem utf8_eq_flatMap (s : String) : utf8 s = s.toList.flatMap String.utf8EncodeChar := by
  rw [utf8, String.toUTF8_eq_toByteArray, ← String.utf8Encode_toList, List.utf8Encode]
  exact List.toList_data_toByteArray

theorem utf8_eq_nil {s : String} : utf8 s = [] ↔ s = "" := by
  rw [utf8_eq_flatMap, List.flatMap_eq_nil_iff]
  constructor
  · intro h
    rw [← String.toList_eq_nil_iff]
    refine List.eq_nil_iff_forall_not_mem.mpr fun c hc => ?_
    have hlen := congrArg List.length (h c hc)
    rw [String.length_utf8EncodeChar] at hlen
    exact c.utf8Size_pos.ne' hlen
  · rintro rfl
    simp

/-- Deterministic pseudo-random bytes: the words of the seed's generator in little-endian order.
That no vector has more than `2 ^ 63 - 1` bytes is left out. -/
def generateRand (x : External) (size : ℕ) (seed : UInt64) : List UInt8 :=
  (List.range size).map fun i => (x.stdRng seed (i / 4) >>> UInt32.ofNat (8 * (i % 4))).toUInt8

/-- A text repeated cyclically; an empty text has no first byte to repeat. That no vector has more
than `2 ^ 63 - 1` bytes is left out. -/
def generatePattern (repeated : String) (size : ℕ) : Except Panic (List UInt8) :=
  if size = 0 then .ok []
  else
    let pattern := utf8 repeated
    if pattern = [] then .error .unwrapNone
    else .ok ((List.range size).map fun i => pattern.getD (i % pattern.length) 0)

def reflectUnreachable : Panic := .unreachable "reflect! should be resolved before body generation"

/-- Generate a complete body. A request echo has to be resolved before. -/
def generateBody (x : External) : BodySpec → Except Panic (List UInt8)
  | .none => .ok []
  | .literal (.string s) => .ok (utf8 s)
  | .literal other => .ok (utf8 other.toString)
  | .rand size seed => .ok (generateRand x size.bytes.toNat seed)
  | .pattern repeated size => generatePattern repeated size.bytes.toNat
  | .reflect _ => .error reflectUnreachable
  | .file path =>
    match x.readFile path with
    | .ok bytes => .ok bytes
    | .error e => .ok (utf8 ("error reading " ++ path ++ ": " ++ e))

theorem generateBody_unreachable_iff {x : External} {body : BodySpec} :
    generateBody x body = .error reflectUnreachable ↔ body.isReflect = true := by
  cases body with
  | none | rand | reflect => simp [generateBody, BodySpec.isReflect]
  | literal v => cases v <;> simp [generateBody, BodySpec.isReflect]
  | pattern repeated size =>
    simp only [generateBody, generatePattern, BodySpec.isReflect]
    split_ifs <;> simp [reflectUnreachable]
  | file path =>
    simp only [generateBody, BodySpec.isReflect]
    cases x.readFile path <;> simp

end Mockinx
