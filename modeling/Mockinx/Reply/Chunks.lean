import Mockinx.Lib.Chunks
import Mockinx.Reply.Body
import Mockinx.Serve.Engine

/-!
Lazy generation of a body in chunks. What a chunk iterator loads at its creation and what it
computes on the way depends on the kind of body; the size it stops at is computed separately.
-/

set_option autoImplicit false
set_option relaxedAutoImplicit false

namespace Mockinx

open Lib

structure StdRng where
  seed : UInt64
  words : ℕ

def StdRng.seedFromU64 (seed : UInt64) : StdRng := { seed, words := 0 }

/-- Fill a buffer with the next words in little-endian order. What is left of the last word is
discarded. -/
def StdRng.fill (x : External) (rng : StdRng) (len : ℕ) : List UInt8 × StdRng :=
  ((List.range len).map fun i =>
      (x.stdRng rng.seed (rng.words + i / 4) >>> UInt32.ofNat (8 * (i % 4))).toUInt8,
    { rng with words := rng.words + (len + 3) / 4 })

/-- The size of a body. A file is asked for its metadata, which may fail. -/
def bodySize (metadata : String → Option UInt64) : BodySpec → Except Panic ℕ
  | .none => .ok 0
  | .literal (.string s) => .ok (utf8 s).length
  | .literal other => .ok (utf8 other.toString).length
  | .rand size _ => .ok size.bytes.toNat
  | .pattern _ size => .ok size.bytes.toNat
  | .reflect _ => .error (.unreachable "reflect! should be resolved before size calculation")
  | .file path => .ok ((metadata path).getD 0).toNat

/-- Iterator that yields body chunks lazily. -/
structure BodyChunks where
  spec : BodySpec
  chunkSize : ℕ
  offset : ℕ
  totalSize : ℕ
  rng : Option StdRng
  /-- The bytes of the repeated text. -/
  pattern : Option (List UInt8)
  /-- The bytes of a literal, or of a file. -/
  literal : Option (List UInt8)

namespace BodyChunks

def chunkUnreachable : Panic := .unreachable "reflect! should be resolved before chunking"

def new (x : External) (metadata : String → Option UInt64) (spec : BodySpec) (chunkSize : ℕ) :
    Except Panic BodyChunks := do
  let totalSize ← bodySize metadata spec
  let start : BodyChunks :=
    { spec, chunkSize := max chunkSize 1, offset := 0, totalSize,
      rng := none, pattern := none, literal := none }
  match spec with
  | .rand _ seed => return { start with rng := some (.seedFromU64 seed) }
  | .pattern repeated _ => return { start with pattern := some (utf8 repeated) }
  | .literal _ | .file _ => return { start with literal := some (← generateBody x spec) }
  | .none => return start
  | .reflect _ => throw chunkUnreachable

def patternChunk (pat : List UInt8) (offset len : ℕ) : List UInt8 :=
  (List.range len).map fun i => pat.getD ((offset + i) % pat.length) 0

/-- The next chunk; there is none when the size is reached. -/
def next (x : External) (b : BodyChunks) : Except Panic (Option (List UInt8) × BodyChunks) :=
  if b.totalSize ≤ b.offset then .ok (none, b)
  else
    let len := min (b.totalSize - b.offset) b.chunkSize
    match b.spec with
    | .none => .ok (none, b)
    | .rand _ _ =>
      match b.rng with
      | none => .error .unwrapNone
      | some rng =>
        let (buf, rng) := rng.fill x len
        .ok (some buf, { b with offset := b.offset + len, rng := some rng })
    | .pattern _ _ =>
      match b.pattern with
      | none => .error .unwrapNone
      | some pat =>
        if pat = [] then .error .divideByZero
        else .ok (some (patternChunk pat b.offset len), { b with offset := b.offset + len })
    | .literal _ | .file _ =>
      match b.literal with
      | none => .error .unwrapNone
      | some data =>
        match slice data b.offset (b.offset + len) with
        | none => .error .outOfRange
        | some chunk => .ok (some chunk, { b with offset := b.offset + len })
    | .reflect _ => .error chunkUnreachable

end BodyChunks

end Mockinx
