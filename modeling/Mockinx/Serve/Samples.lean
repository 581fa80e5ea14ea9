import Mockinx.Serve.Engine

/-!
What a delivery draws from the ranges of its specification, one after another from one random
source: the delay before the first byte, the limits of a drop and of a hang, and the pace.
-/

set_option autoImplicit false
set_option relaxedAutoImplicit false

namespace Mockinx

open Lib

def HangSpec.toDrop : HangSpec → DropSpec
  | .afterBytes r => .afterBytes r
  | .afterTime r => .afterTime r

theorem sampleHang_eq (now : Instant) (hang : Option HangSpec) :
    sampleHang now hang = sampleDrop now (hang.map HangSpec.toDrop) := by
  rcases hang with _ | (r | r) <;> rfl

/-- The number of chunks of a size that cover a length. -/
def DeliveryStream.numChunks (len size : ℕ) : ℕ := (len + size - 1) / size

open DeliveryStream

def targetChunkSize (len : ℕ) : ℕ := min (max (len / minPaceChunks) 1) defaultChunkSize

/-- The number of chunks for a target duration. -/
def targetChunks (len : ℕ) : ℕ := numChunks len (targetChunkSize len)

theorem targetChunkSize_pos (len : ℕ) : 0 < targetChunkSize len :=
  lt_min (lt_max_of_lt_right one_pos) (by decide)

inductive FirstByteDrawn : Option (Range Duration) → Rng → Option Duration → Rng → Prop
  | unset {rng : Rng} : FirstByteDrawn none rng none rng
  | drawn {range : Range Duration} {rng rng' : Rng} {delay : Duration}
      (h : range.sample rng = .ok (delay, rng')) :
      FirstByteDrawn (some range) rng (some delay) rng'

/-- The byte limit and the deadline of a drop or a hang, at most one of them. -/
inductive LimitDrawn (now : Instant) :
    Option DropSpec → Rng → Option ℕ → Option Instant → Rng → Prop
  | unset {rng : Rng} : LimitDrawn now none rng none none rng
  | bytes {range : Range ByteSize} {rng rng' : Rng} {size : ByteSize}
      (h : range.sample rng = .ok (size, rng')) :
      LimitDrawn now (some (.afterBytes range)) rng (some size.bytes.toNat) none rng'
  | time {range : Range Duration} {rng rng' : Rng} {time : Duration} {deadline : Instant}
      (h : range.sample rng = .ok (time, rng'))
      (hdeadline : deadline.nanos = now.nanos + time.nanos) :
      LimitDrawn now (some (.afterTime range)) rng none (some deadline) rng'

/-- The chunk size and the delay between chunks. A target duration is spread over the gaps between
its chunks, the number of which is narrowed to 32 bits; a speed sends a tenth of a second at a
time. -/
inductive PaceDrawn (len : ℕ) : Option PaceSpec → Rng → ℕ → Option Duration → Rng → Prop
  | unset {rng : Rng} : PaceDrawn len none rng (max len 1) none rng
  | chunk {size : Range ByteSize} {interval : Range Duration} {rng rng₁ rng' : Rng}
      {bytes : ByteSize} {delay : Duration} (hsize : size.sample rng = .ok (bytes, rng₁))
      (hinterval : interval.sample rng₁ = .ok (delay, rng')) :
      PaceDrawn len (some (.chunk size interval)) rng (max bytes.bytes.toNat 1) (some delay) rng'
  | single {range : Range Duration} {rng rng' : Rng} {target : Duration}
      (h : range.sample rng = .ok (target, rng')) (hchunks : targetChunks len ≤ 1) :
      PaceDrawn len (some (.duration range)) rng (targetChunkSize len) (some target) rng'
  | spread {range : Range Duration} {rng rng' : Rng} {target delay : Duration}
      (h : range.sample rng = .ok (target, rng')) (hchunks : 1 < targetChunks len)
      (hdelay : delay.nanos = target.nanos / ((targetChunks len - 1) % 2 ^ 32)) :
      PaceDrawn len (some (.duration range)) rng (targetChunkSize len) (some delay) rng'
  | unlimited {range : Range Speed} {rng rng' : Rng} {speed : Speed}
      (h : range.sample rng = .ok (speed, rng')) (hzero : speed.bytesPerSec.toNat = 0) :
      PaceDrawn len (some (.speed range)) rng (max len 1) none rng'
  | capped {range : Range Speed} {rng rng' : Rng} {speed : Speed} {delay : Duration}
      (h : range.sample rng = .ok (speed, rng')) (hpos : speed.bytesPerSec.toNat ≠ 0)
      (hdelay : fromSecsF64 (F64.ofNat (max (speed.bytesPerSec.toNat / 10) 1) /
        F64.ofNat speed.bytesPerSec.toNat) = .ok delay) :
      PaceDrawn len (some (.speed range)) rng (max (speed.bytesPerSec.toNat / 10) 1) (some delay)
        rng'

section
variable {now : Instant} {rng rng' : Rng}

private theorem addInstant_ok {t : Instant} {d : Duration} :
    addInstant now d = .ok t ↔ now.checkedAdd d = some t := by
  rw [addInstant]
  cases now.checkedAdd d <;> simp

private theorem sampleFirstByte_drawn {firstByte : Option (Range Duration)} {r : Option Duration}
    (h : sampleFirstByte firstByte rng = .ok (r, rng')) :
    FirstByteDrawn firstByte rng r rng' := by
  cases firstByte with
  | none =>
    obtain ⟨rfl, rfl⟩ := sampler_pure_ok.mp h
    exact .unset
  | some range =>
    obtain ⟨delay, _, hdelay, h⟩ := sampler_bind_ok.mp h
    obtain ⟨rfl, rfl⟩ := sampler_pure_ok.mp h
    exact .drawn hdelay

private theorem sampleBytes_drawn {range : Range ByteSize} {n : ℕ}
    (h : sampleBytes range rng = .ok (n, rng')) :
    ∃ size, range.sample rng = .ok (size, rng') ∧ n = size.bytes.toNat := by
  obtain ⟨size, _, hsize, h⟩ := sampler_bind_ok.mp h
  obtain ⟨rfl, rfl⟩ := sampler_pure_ok.mp h
  exact ⟨size, hsize, rfl⟩

private theorem sampleDeadline_drawn {range : Range Duration} {deadline : Instant}
    (h : sampleDeadline now range rng = .ok (deadline, rng')) :
    ∃ time, range.sample rng = .ok (time, rng') ∧ deadline.nanos = now.nanos + time.nanos := by
  obtain ⟨time, _, htime, h⟩ := sampler_bind_ok.mp h
  obtain ⟨hadd, rfl⟩ := liftPanic_ok.mp h
  exact ⟨time, htime, Instant.checkedAdd_eq_some.mp (addInstant_ok.mp hadd)⟩

theorem sampleDrop_drawn {drop : Option DropSpec} {bytes : Option ℕ} {deadline : Option Instant}
    (h : sampleDrop now drop rng = .ok ((bytes, deadline), rng')) :
    LimitDrawn now drop rng bytes deadline rng' := by
  rcases drop with _ | (range | range)
  · obtain ⟨⟨⟩, rfl⟩ := sampler_pure_ok.mp h
    exact .unset
  · obtain ⟨n, _, hn, h⟩ := sampler_bind_ok.mp h
    obtain ⟨⟨⟩, rfl⟩ := sampler_pure_ok.mp h
    obtain ⟨size, hsize, rfl⟩ := sampleBytes_drawn hn
    exact .bytes hsize
  · obtain ⟨deadline, _, hdeadline, h⟩ := sampler_bind_ok.mp h
    obtain ⟨⟨⟩, rfl⟩ := sampler_pure_ok.mp h
    obtain ⟨time, htime, hnanos⟩ := sampleDeadline_drawn hdeadline
    exact .time htime hnanos

theorem sampleHang_drawn {hang : Option HangSpec} {bytes : Option ℕ} {deadline : Option Instant}
    (h : sampleHang now hang rng = .ok ((bytes, deadline), rng')) :
    LimitDrawn now (hang.map HangSpec.toDrop) rng bytes deadline rng' := by
  rw [sampleHang_eq] at h
  exact sampleDrop_drawn h

theorem sampleDrop_fixed {time : Duration} {deadline : Instant}
    (h : deadline.nanos = now.nanos + time.nanos) (rng : Rng) :
    sampleDrop now (some (.afterTime (.fixed time))) rng = .ok ((none, some deadline), rng) := by
  have hdeadline : sampleDeadline now (.fixed time) rng = .ok (deadline, rng) :=
    liftPanic_ok.mpr ⟨addInstant_ok.mpr (Instant.checkedAdd_eq_some.mpr h), rfl⟩
  exact sampler_bind_of_ok hdeadline

theorem samplePace_duration_eq (len : ℕ) (range : Range Duration) :
    samplePace len (some (.duration range)) = (do
      let duration ← range.sample
      if 1 < targetChunks len then
        let delay ← liftPanic (divDuration duration ((targetChunks len - 1) % 2 ^ 32))
        return (targetChunkSize len, some delay)
      else
        return (targetChunkSize len, some duration)) := by
  have hmax : max (targetChunkSize len) 1 = targetChunkSize len :=
    max_eq_left (targetChunkSize_pos len)
  have hcount : (len + targetChunkSize len - 1) / max (targetChunkSize len) 1 =
      targetChunks len := congrArg (fun m => (len + targetChunkSize len - 1) / m) hmax
  rw [← hcount]
  rfl

private theorem divDuration_ok {d q : Duration} {n : ℕ} (h : divDuration d n = .ok q) :
    q.nanos = d.nanos / n := by
  rw [divDuration, Duration.divNat] at h
  split_ifs at h
  obtain rfl := Except.ok.inj h
  rfl

theorem samplePace_drawn {len : ℕ} {pace : Option PaceSpec} {size : ℕ} {delay : Option Duration}
    (h : samplePace len pace rng = .ok ((size, delay), rng')) :
    PaceDrawn len pace rng size delay rng' := by
  rcases pace with _ | (range | range | ⟨size, interval⟩)
  · obtain ⟨⟨⟩, rfl⟩ := sampler_pure_ok.mp h
    exact .unset
  · rw [samplePace_duration_eq] at h
    obtain ⟨target, _, htarget, h⟩ := sampler_bind_ok.mp h
    split_ifs at h with hchunks
    · obtain ⟨delay, _, hdelay, h⟩ := sampler_bind_ok.mp h
      obtain ⟨hdiv, rfl⟩ := liftPanic_ok.mp hdelay
      obtain ⟨⟨⟩, rfl⟩ := sampler_pure_ok.mp h
      exact .spread htarget hchunks (divDuration_ok hdiv)
    · obtain ⟨⟨⟩, rfl⟩ := sampler_pure_ok.mp h
      exact .single htarget (not_lt.mp hchunks)
  · obtain ⟨speed, _, hspeed, h⟩ := sampler_bind_ok.mp h
    dsimp only at h
    split_ifs at h with hzero
    · obtain ⟨⟨⟩, rfl⟩ := sampler_pure_ok.mp h
      exact .unlimited hspeed hzero
    · obtain ⟨delay, _, hdelay, h⟩ := sampler_bind_ok.mp h
      obtain ⟨hsecs, rfl⟩ := liftPanic_ok.mp hdelay
      obtain ⟨⟨⟩, rfl⟩ := sampler_pure_ok.mp h
      exact .capped hspeed hzero hsecs
  · obtain ⟨n, _, hn, h⟩ := sampler_bind_ok.mp h
    obtain ⟨delay, _, hdelay, h⟩ := sampler_bind_ok.mp h
    obtain ⟨⟨⟩, rfl⟩ := sampler_pure_ok.mp h
    obtain ⟨bytes, hbytes, rfl⟩ := sampleBytes_drawn hn
    exact .chunk hbytes hdelay

end

private theorem LimitDrawn.deadline {now : Instant} {drop : Option DropSpec} {rng rng' : Rng}
    {bytes : Option ℕ} {deadline : Option Instant}
    (h : LimitDrawn now drop rng bytes deadline rng') (hdrop : ∀ d, drop ≠ some (.afterTime d)) :
    deadline = none := by
  cases h with
  | unset | bytes => rfl
  | time => exact absurd rfl (hdrop _)

theorem LimitDrawn.none {now : Instant} {rng rng' : Rng} {bytes : Option ℕ}
    {deadline : Option Instant} (h : LimitDrawn now none rng bytes deadline rng') :
    bytes = .none ∧ deadline = .none ∧ rng' = rng := by
  cases h
  exact ⟨rfl, rfl, rfl⟩

theorem LimitDrawn.of_time {now : Instant} {range : Range Duration} {rng rng' : Rng}
    {bytes : Option ℕ} {deadline : Option Instant}
    (h : LimitDrawn now (some (.afterTime range)) rng bytes deadline rng') :
    ∃ time d, range.sample rng = .ok (time, rng') ∧ bytes = .none ∧ deadline = some d ∧
      d.nanos = now.nanos + time.nanos := by
  cases h with
  | time htime hdeadline => exact ⟨_, _, htime, rfl, rfl, hdeadline⟩

theorem LimitDrawn.deadline_of_bytes {now : Instant} {drop : Option DropSpec} {rng rng' : Rng}
    {n : ℕ} {deadline : Option Instant} (h : LimitDrawn now drop rng (some n) deadline rng') :
    deadline = .none := by
  cases h
  rfl

private theorem PaceDrawn.pos {len : ℕ} {pace : Option PaceSpec} {rng rng' : Rng} {size : ℕ}
    {delay : Option Duration} (h : PaceDrawn len pace rng size delay rng') : 0 < size := by
  cases h with
  | unset | chunk | unlimited | capped => exact lt_max_of_lt_right one_pos
  | single | spread => exact targetChunkSize_pos len

namespace DeliveryStream

variable {body : List UInt8} {spec : DeliverySpec} {dropNow hangNow : Instant} {rng rng' : Rng}
  {s : DeliveryStream}

/-- A delivered stream is made of the four samples, and nothing has been done with it yet. -/
structure Delivered (body : List UInt8) (spec : DeliverySpec) (dropNow hangNow : Instant)
    (rng : Rng) (s : DeliveryStream) (rng' : Rng) : Prop where
  samples : ∃ rng₁ rng₂ rng₃,
    sampleFirstByte spec.firstByte rng = .ok (s.firstByteDelay, rng₁) ∧
      sampleDrop dropNow spec.drop rng₁ = .ok ((s.dropAfterBytes, s.dropDeadline), rng₂) ∧
      sampleHang hangNow spec.hang rng₂ = .ok ((s.hangAfterBytes, s.hangDeadline), rng₃) ∧
      samplePace body.length spec.pace rng₃ = .ok ((s.chunkSize, s.chunkDelay), rng')
  body : s.body = body
  offset : s.offset = 0
  firstByteDone : s.firstByteDone = false
  sleep : s.sleep = none
  started : s.started = false

theorem deliver_delivered (h : deliver body spec dropNow hangNow rng = .ok (s, rng')) :
    Delivered body spec dropNow hangNow rng s rng' := by
  rw [deliver] at h
  obtain ⟨firstByteDelay, rng₁, hfirst, h⟩ := sampler_bind_ok.mp h
  obtain ⟨⟨dropAfterBytes, dropDeadline⟩, rng₂, hdrop, h⟩ := sampler_bind_ok.mp h
  obtain ⟨⟨hangAfterBytes, hangDeadline⟩, rng₃, hhang, h⟩ := sampler_bind_ok.mp h
  obtain ⟨⟨chunkSize, chunkDelay⟩, rng₄, hpace, h⟩ := sampler_bind_ok.mp h
  obtain ⟨rfl, rfl⟩ := sampler_pure_ok.mp h
  exact ⟨⟨rng₁, rng₂, rng₃, hfirst, hdrop, hhang, hpace⟩, rfl, rfl, rfl, rfl, rfl⟩

/-- The stream sends the body by what its specification draws, in this order. -/
structure Drawn (body : List UInt8) (spec : DeliverySpec) (dropNow hangNow : Instant) (rng : Rng)
    (s : DeliveryStream) (rng' : Rng) : Prop where
  samples : ∃ rng₁ rng₂ rng₃, FirstByteDrawn spec.firstByte rng s.firstByteDelay rng₁ ∧
    LimitDrawn dropNow spec.drop rng₁ s.dropAfterBytes s.dropDeadline rng₂ ∧
    LimitDrawn hangNow (spec.hang.map HangSpec.toDrop) rng₂ s.hangAfterBytes s.hangDeadline rng₃ ∧
    PaceDrawn body.length spec.pace rng₃ s.chunkSize s.chunkDelay rng'
  body : s.body = body

theorem deliver_drawn (h : deliver body spec dropNow hangNow rng = .ok (s, rng')) :
    Drawn body spec dropNow hangNow rng s rng' := by
  have hs := deliver_delivered h
  obtain ⟨rng₁, rng₂, rng₃, hfirst, hdrop, hhang, hpace⟩ := hs.samples
  exact ⟨⟨rng₁, rng₂, rng₃, sampleFirstByte_drawn hfirst, sampleDrop_drawn hdrop,
    sampleHang_drawn hhang, samplePace_drawn hpace⟩, hs.body⟩

theorem deliver_of_samples {rng₁ rng₂ rng₃ : Rng} {firstByteDelay chunkDelay : Option Duration}
    {dropAfterBytes hangAfterBytes : Option ℕ} {dropDeadline hangDeadline : Option Instant}
    {chunkSize : ℕ} (hfirst : sampleFirstByte spec.firstByte rng = .ok (firstByteDelay, rng₁))
    (hdrop : sampleDrop dropNow spec.drop rng₁ = .ok ((dropAfterBytes, dropDeadline), rng₂))
    (hhang : sampleHang hangNow spec.hang rng₂ = .ok ((hangAfterBytes, hangDeadline), rng₃))
    (hpace : samplePace body.length spec.pace rng₃ = .ok ((chunkSize, chunkDelay), rng')) :
    deliver body spec dropNow hangNow rng =
      .ok ({ body, chunkSize, chunkDelay, dropAfterBytes, dropDeadline, hangAfterBytes,
             hangDeadline, firstByteDelay }, rng') := by
  rw [deliver, sampler_bind_of_ok hfirst, sampler_bind_of_ok hdrop]
  refine (sampler_bind_of_ok hhang).trans ?_
  exact sampler_bind_of_ok hpace

theorem deliver_spec (h : deliver body spec dropNow hangNow rng = .ok (s, rng')) :
    s.body = body ∧ s.offset = 0 ∧ 0 < s.chunkSize ∧
      ((∀ d, spec.drop ≠ some (.afterTime d)) → s.dropDeadline = none) ∧
      (spec.drop = none → s.dropAfterBytes = none) ∧
      (spec.hang = none → s.hangAfterBytes = none ∧ s.hangDeadline = none) := by
  obtain ⟨⟨_, _, _, _, hdrop, hhang, hpace⟩, hbody⟩ := deliver_drawn h
  refine ⟨hbody, (deliver_delivered h).offset, hpace.pos, hdrop.deadline, ?_, ?_⟩
  · intro hnone
    rw [hnone] at hdrop
    exact hdrop.none.1
  · intro hnone
    rw [hnone] at hhang
    exact ⟨hhang.none.1, hhang.none.2.1⟩

end DeliveryStream

end Mockinx
