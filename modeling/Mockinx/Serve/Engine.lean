import Mockinx.Serve.Pace

/-!
The delivery engine: sampling a delivery specification into a stream of chunks, and one poll of
that stream. What a poll reads from outside, the clock and whether its timers have fired, is input.
-/

set_option autoImplicit false
set_option relaxedAutoImplicit false

namespace Mockinx

open Lib

/-- A stream of byte chunks shaped by a delivery specification. -/
structure DeliveryStream where
  body : List UInt8
  offset : ℕ := 0
  chunkSize : ℕ
  chunkDelay : Option Duration
  dropAfterBytes : Option ℕ
  dropDeadline : Option Instant
  hangAfterBytes : Option ℕ
  hangDeadline : Option Instant
  firstByteDone : Bool := false
  firstByteDelay : Option Duration
  /-- The deadline of the sleep in progress. -/
  sleep : Option Instant := none
  started : Bool := false

def defaultChunkSize : ℕ := 8192

def minPaceChunks : ℕ := 10

def addInstant (now : Instant) (d : Duration) : Except Panic Instant :=
  match now.checkedAdd d with
  | some t => .ok t
  | none => .error .overflow

def divDuration (d : Duration) (n : ℕ) : Except Panic Duration :=
  match d.divNat n with
  | some q => .ok q
  | none => .error .divideByZero

def sampleBytes (r : Range ByteSize) : Sampler ℕ := do
  return (← r.sample).bytes.toNat

def sampleDeadline (now : Instant) (r : Range Duration) : Sampler Instant := do
  liftPanic (addInstant now (← r.sample))

def sampleFirstByte : Option (Range Duration) → Sampler (Option Duration)
  | some fb => do return some (← fb.sample)
  | none => return none

/-- The byte limit and the deadline of a drop; the clock is read at `now`. -/
def sampleDrop (now : Instant) : Option DropSpec → Sampler (Option ℕ × Option Instant)
  | some (.afterBytes r) => do return (some (← sampleBytes r), none)
  | some (.afterTime r) => do return (none, some (← sampleDeadline now r))
  | none => return (none, none)

def sampleHang (now : Instant) : Option HangSpec → Sampler (Option ℕ × Option Instant)
  | some (.afterBytes r) => do return (some (← sampleBytes r), none)
  | some (.afterTime r) => do return (none, some (← sampleDeadline now r))
  | none => return (none, none)

/-- The chunk size and the delay between chunks. The number of gaps is narrowed to 32 bits before
the duration is divided by it. -/
def samplePace (len : ℕ) : Option PaceSpec → Sampler (ℕ × Option Duration)
  | some (.chunk size interval) => do
    let s ← sampleBytes size
    let d ← interval.sample
    return (max s 1, some d)
  | some (.duration range) => do
    let duration ← range.sample
    let chunkSize := min (max (len / minPaceChunks) 1) defaultChunkSize
    let numChunks := (len + chunkSize - 1) / max chunkSize 1
    if 1 < numChunks then
      let delay ← liftPanic (divDuration duration ((numChunks - 1) % 2 ^ 32))
      return (chunkSize, some delay)
    else
      return (chunkSize, some duration)
  | some (.speed range) => do
    let bps := (← range.sample).bytesPerSec.toNat
    if bps = 0 then
      return (max len 1, none)
    else
      let chunkSize := max (bps / 10) 1
      let delay ← liftPanic (fromSecsF64 (F64.ofNat chunkSize / F64.ofNat bps))
      return (chunkSize, some delay)
  | none => return (max len 1, none)

/-- Resolve a delivery specification into a stream. A drop reads the clock before a hang does. -/
def deliver (body : List UInt8) (spec : DeliverySpec) (dropNow hangNow : Instant) :
    Sampler DeliveryStream := do
  let firstByteDelay ← sampleFirstByte spec.firstByte
  let (dropAfterBytes, dropDeadline) ← sampleDrop dropNow spec.drop
  let (hangAfterBytes, hangDeadline) ← sampleHang hangNow spec.hang
  let (chunkSize, chunkDelay) ← samplePace body.length spec.pace
  return { body, chunkSize, chunkDelay, dropAfterBytes, dropDeadline, hangAfterBytes,
           hangDeadline, firstByteDelay }

/-- A poll result; a pending one tells when the timer registered by the poll fires, if any. -/
inductive Poll (α : Type) where
  | pending (wake : Option Instant)
  | ready (a : α)
  deriving DecidableEq

/-- What one poll reads, in the order of the code: the clock at the first drop check, at the start
of the first-byte sleep and of the inter-chunk sleep with whether each has fired, at the hang check
and at the last drop check. A delay past the range of the clock sleeps until `farFuture`. -/
structure PollEnv where
  dropNow : Instant
  firstStart : Instant
  firstReady : Bool
  chunkStart : Instant
  chunkReady : Bool
  hangNow : Instant
  lastNow : Instant
  farFuture : Instant

def PollEnv.wakeAt (env : PollEnv) (now : Instant) (delay : Duration) : Instant :=
  (now.checkedAdd delay).getD env.farFuture

def reached (deadline : Option Instant) (now : Instant) : Bool :=
  match deadline with
  | some d => decide (d ≤ now)
  | none => false

def slice (xs : List UInt8) (start stop : ℕ) : Option (List UInt8) :=
  if start ≤ stop ∧ stop ≤ xs.length then some ((xs.drop start).take (stop - start)) else none

namespace DeliveryStream

/-- The bytes that are sent when nothing else stops the stream. -/
def effectiveLen (s : DeliveryStream) : ℕ :=
  match s.dropAfterBytes with
  | some n => min s.body.length n
  | none => s.body.length

def firstByteGate (s : DeliveryStream) (env : PollEnv) : DeliveryStream × Poll Unit :=
  if s.firstByteDone then (s, .ready ())
  else
    match s.firstByteDelay with
    | none => ({ s with firstByteDone := true }, .ready ())
    | some delay =>
      let wake := s.sleep.getD (env.wakeAt env.firstStart delay)
      if env.firstReady then ({ s with firstByteDone := true, sleep := none }, .ready ())
      else ({ s with sleep := some wake }, .pending (some wake))

def chunkGate (s : DeliveryStream) (env : PollEnv) : DeliveryStream × Poll Unit :=
  if s.started then
    match s.chunkDelay with
    | none => (s, .ready ())
    | some delay =>
      let wake := s.sleep.getD (env.wakeAt env.chunkStart delay)
      if env.chunkReady then ({ s with sleep := none }, .ready ())
      else ({ s with sleep := some wake }, .pending (some wake))
  else (s, .ready ())

/-- The hang checks, the end of the body, and the next chunk. -/
def yieldChunk (s : DeliveryStream) (env : PollEnv) :
    Except Panic (DeliveryStream × Poll (Option (List UInt8))) :=
  if reached s.hangDeadline env.hangNow then .ok (s, .pending none)
  else if s.hangAfterBytes.any (· ≤ s.offset) then .ok (s, .pending none)
  else if s.effectiveLen ≤ s.offset then .ok (s, .ready none)
  else if reached s.dropDeadline env.lastNow then .ok (s, .ready none)
  else
    let len := min (s.effectiveLen - s.offset) s.chunkSize
    match slice s.body s.offset (s.offset + len) with
    | none => .error .outOfRange
    | some chunk =>
      .ok ({ s with offset := s.offset + len, started := true }, .ready (some chunk))

def pollNext (s : DeliveryStream) (env : PollEnv) :
    Except Panic (DeliveryStream × Poll (Option (List UInt8))) :=
  if reached s.dropDeadline env.dropNow then .ok (s, .ready none)
  else
    match s.firstByteGate env with
    | (s, .pending wake) => .ok (s, .pending wake)
    | (s, .ready ()) =>
      match s.chunkGate env with
      | (s, .pending wake) => .ok (s, .pending wake)
      | (s, .ready ()) => s.yieldChunk env

end DeliveryStream

end Mockinx
