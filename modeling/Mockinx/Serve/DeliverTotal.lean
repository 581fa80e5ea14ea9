import Mockinx.Lib.F64Interp
import Mockinx.Serve.PaceTarget
import Mockinx.Units.DurationRange

/-!
When a delivery starts. Every duration that the parser reads can be sampled and every pace has a
delay, so the one thing that can go wrong is a drop or hang time past the end of the clock.
-/

set_option autoImplicit false
set_option relaxedAutoImplicit false

namespace Mockinx

open Lib Lib.Text

theorem Rng.float_spec (rng : Rng) :
    ∃ t, rng.float = .finite t ∧ 0 ≤ t.1 ∧ t.1 ≤ 1 - powInt 2 (-53) := by
  have hone : (1 : ℚ) - powInt 2 (-53) = ((2 ^ 53 - 1 : ℕ) : ℚ) / (2 ^ 53 : ℕ) := by
    decide +kernel
  have hrepr : Representable (1 - powInt 2 (-53)) :=
    ⟨2 ^ 53 - 1, -53, by norm_num, by norm_num, by norm_num, by decide +kernel⟩
  have hle : ((rng.draw 0 : ℕ) : ℚ) / (2 ^ 53 : ℕ) ≤ 1 - powInt 2 (-53) := by
    have hdraw : (rng.draw 0 : ℕ) ≤ 2 ^ 53 - 1 := Nat.le_sub_one_of_lt (rng.draw 0).2
    rw [hone]
    exact div_le_div_of_nonneg_right (by exact_mod_cast hdraw) (by norm_num)
  obtain ⟨t, ht, _, hlo, hhi⟩ := F64.ofRat_between representable_zero hrepr (by positivity) hle
  exact ⟨t, ht, hlo, hhi⟩

def Range.FromSecs : Range Duration → Prop
  | .fixed _ => True
  | .minMax lo hi => lo.nanos ≤ Duration.maxFromSecs ∧ hi.nanos ≤ Duration.maxFromSecs

theorem Range.FromSecs.sample_ok {range : Range Duration} (h : range.FromSecs) (rng : Rng) :
    ∃ d rng', range.sample rng = .ok (d, rng') := by
  cases range with
  | fixed v => exact ⟨v, rng, rfl⟩
  | minMax lo hi =>
    have h1000 : (2 : ℚ) ^ 64 ≤ powInt 2 1000 := by decide +kernel
    obtain ⟨x, hx, hx0, hx64⟩ := Duration.exists_asSecsF64_lt h.1
    obtain ⟨y, hy, hy0, hy64⟩ := Duration.exists_asSecsF64_lt h.2
    obtain ⟨t, ht, ht0, ht1⟩ := rng.float_spec
    obtain ⟨r, hr, hrlo, hrhi⟩ := F64.exists_lerp hx0 hy0 (hx64.le.trans h1000)
      (hy64.le.trans h1000) ht0 ht1
    have hsome : (Duration.fromSecsF64 (.finite r)).isSome :=
      Duration.isSome_fromSecsF64_iff.mpr
        ⟨r, rfl, (le_min hx0 hy0).trans hrlo, hrhi.trans_lt (max_lt hx64 hy64)⟩
    obtain ⟨d, hd⟩ := Option.isSome_iff_exists.mp hsome
    refine ⟨d, rng.next, ?_⟩
    have hlerp : Scalable.lerp lo hi rng.float = .ok d := by
      change fromSecsF64 (lo.asSecsF64 + (hi.asSecsF64 - lo.asSecsF64) * rng.float) = _
      rw [hx, hy, ht, hr, fromSecsF64, hd]
    exact (sampler_bind_of_ok (m := drawFloat) rfl).trans (liftPanic_ok.mpr ⟨hlerp, rfl⟩)

private theorem convert_le {x : F64} {d : Duration} (h : orPanic (fromSecsF64 x) = .ok d) :
    d.nanos ≤ Duration.maxFromSecs :=
  Duration.nanos_le_of_fromSecsF64 (convert_ok.mp h)

private theorem parseDuration_le {text : List Char} {d : Duration}
    (h : parseDuration text = .ok d) :
    d.nanos ≤ Duration.maxFromSecs := by
  have hread := parseDuration_ok.mp h
  obtain ⟨x, _, hx⟩ := Option.bind_eq_some_iff.mp hread
  exact Duration.nanos_le_of_fromSecsF64 hx

theorem parseDurationRange_fromSecs {s : String} {range : Range Duration}
    (h : parseDurationRange s = .ok range) : range.FromSecs := by
  rw [parseDurationRange, parseRangeStr] at h
  dsimp only at h
  split at h
  · split at h
    · obtain ⟨base, _, h⟩ := parse_bind_ok.mp h
      obtain ⟨pct, _, h⟩ := parse_bind_ok.mp h
      split_ifs at h
      · cases h
      · cases h
        trivial
      · obtain ⟨lo, hlo, h⟩ := parse_bind_ok.mp h
        obtain ⟨hi, hhi, h⟩ := parse_bind_ok.mp h
        cases h
        exact ⟨convert_le hlo, convert_le hhi⟩
    · obtain ⟨min, hmin, h⟩ := parse_bind_ok.mp h
      obtain ⟨max, hmax, h⟩ := parse_bind_ok.mp h
      split_ifs at h
      · cases h
      · cases h
        trivial
      · cases h
        exact ⟨parseDuration_le hmin, parseDuration_le hmax⟩
  · obtain ⟨val, _, h⟩ := parse_bind_ok.mp h
    cases h
    trivial

structure DeliverySpec.FromSecs (spec : DeliverySpec) : Prop where
  firstByte : ∀ range, spec.firstByte = some range → range.FromSecs
  drop : ∀ range, spec.drop = some (.afterTime range) → range.FromSecs
  hang : ∀ range, spec.hang = some (.afterTime range) → range.FromSecs
  duration : ∀ range, spec.pace = some (.duration range) → range.FromSecs
  interval : ∀ size range, spec.pace = some (.chunk size range) → range.FromSecs

private theorem attempt_ok {α : Type} {r : Parse α} {a : α} (h : attempt r = .ok (some a)) :
    r = .ok a := by
  rcases r with (e | p) | b
  · cases h
  · cases h
  · cases h
    rfl

private theorem parseDropValue_fromSecs {s : String} {range : Range Duration}
    (h : parseDropValue s = .ok (some (.afterTime range))) : range.FromSecs := by
  rw [parseDropValue] at h
  obtain ⟨bytes, _, h⟩ := parse_bind_ok.mp h
  cases bytes with
  | some r => cases h
  | none =>
    obtain ⟨time, htime, h⟩ := parse_bind_ok.mp h
    cases time with
    | none => cases h
    | some r =>
      cases h
      exact parseDurationRange_fromSecs (attempt_ok htime)

private theorem parseDrop_fromSecs {obj : Map} {range : Range Duration}
    (h : parseDrop obj = .ok (some (.afterTime range))) : range.FromSecs := by
  rw [parseDrop] at h
  split at h
  · cases h
  · exact parseDropValue_fromSecs h
  · obtain ⟨after, _, h⟩ := parse_bind_ok.mp h
    exact parseDropValue_fromSecs h
  · cases h

private theorem parseHang_fromSecs {obj : Map} {range : Range Duration}
    (h : parseHang obj = .ok (some (.afterTime range))) : range.FromSecs := by
  rw [parseHang] at h
  split at h
  · cases h
  · obtain ⟨s, _, h⟩ := parse_bind_ok.mp h
    obtain ⟨bytes, _, h⟩ := parse_bind_ok.mp h
    cases bytes with
    | some r => cases h
    | none =>
      obtain ⟨time, htime, h⟩ := parse_bind_ok.mp h
      cases time with
      | none => cases h
      | some r =>
        cases h
        exact parseDurationRange_fromSecs (attempt_ok htime)

private theorem parseFirstByte_fromSecs {obj : Map} {range : Range Duration}
    (h : parseFirstByte obj = .ok (some range)) : range.FromSecs := by
  rw [parseFirstByte] at h
  split at h
  · cases h
  · obtain ⟨r, hr, h⟩ := parse_bind_ok.mp h
    cases h
    exact parseDurationRange_fromSecs hr
  · obtain ⟨delay, _, h⟩ := parse_bind_ok.mp h
    obtain ⟨r, hr, h⟩ := parse_bind_ok.mp h
    cases h
    exact parseDurationRange_fromSecs hr
  · cases h

private theorem parsePace_fromSecs {obj : Map} {pace : PaceSpec}
    (h : parsePace obj = .ok (some pace)) :
    (∀ range, pace = .duration range → range.FromSecs) ∧
      ∀ size range, pace = .chunk size range → range.FromSecs := by
  rw [parsePace] at h
  split at h
  · cases h
  · obtain ⟨s, _, h⟩ := parse_bind_ok.mp h
    obtain ⟨parsed, hparsed, h⟩ := parse_bind_ok.mp h
    obtain rfl : parsed = pace := by
      cases h
      rfl
    rw [parsePaceStr] at hparsed
    split at hparsed
    · obtain ⟨size, _, hparsed⟩ := parse_bind_ok.mp hparsed
      obtain ⟨interval, hinterval, hparsed⟩ := parse_bind_ok.mp hparsed
      cases hparsed
      refine ⟨fun _ he => (nomatch he), ?_⟩
      intro _ _ he
      cases he
      exact parseDurationRange_fromSecs hinterval
    · split_ifs at hparsed
      · obtain ⟨speed, _, hparsed⟩ := parse_bind_ok.mp hparsed
        cases hparsed
        exact ⟨fun _ he => (nomatch he), fun _ _ he => (nomatch he)⟩
      · obtain ⟨duration, hduration, hparsed⟩ := parse_bind_ok.mp hparsed
        cases hparsed
        refine ⟨?_, fun _ _ he => (nomatch he)⟩
        intro _ he
        cases he
        exact parseDurationRange_fromSecs hduration

theorem parseDeliveryFields_fromSecs {obj : Map} {spec : DeliverySpec}
    (h : parseDeliveryFields obj = .ok spec) : spec.FromSecs := by
  rw [parseDeliveryFields] at h
  obtain ⟨pace, hpace, h⟩ := parse_bind_ok.mp h
  obtain ⟨drop, hdrop, h⟩ := parse_bind_ok.mp h
  obtain ⟨hang, hhang, h⟩ := parse_bind_ok.mp h
  obtain ⟨firstByte, hfirst, h⟩ := parse_bind_ok.mp h
  cases h
  constructor
  · rintro range rfl
    exact parseFirstByte_fromSecs hfirst
  · rintro range rfl
    exact parseDrop_fromSecs hdrop
  · rintro range rfl
    exact parseHang_fromSecs hhang
  · rintro range rfl
    exact (parsePace_fromSecs hpace).1 range rfl
  · rintro size range rfl
    exact (parsePace_fromSecs hpace).2 size range rfl

def sampleDropTime : Option DropSpec → Sampler (Option Duration)
  | some (.afterBytes r) => do
    let _ ← sampleBytes r
    return none
  | some (.afterTime r) => do return some (← r.sample)
  | none => return none

/-- The drop time and the hang time that a delivery draws. -/
def sampleTimes (spec : DeliverySpec) : Sampler (Option Duration × Option Duration) := do
  let _ ← sampleFirstByte spec.firstByte
  let dropTime ← sampleDropTime spec.drop
  let hangTime ← sampleDropTime (spec.hang.map HangSpec.toDrop)
  return (dropTime, hangTime)

/-- A time after an instant is within the range of the clock. -/
def InReach (now : Instant) (time : Option Duration) : Prop :=
  ∀ d, time = some d → now.nanos + d.nanos < 2 ^ 63 * 10 ^ 9

/-- The gaps of a target duration are not a multiple of `2 ^ 32`, unless there are none. -/
def GapsFit (len : ℕ) (pace : Option PaceSpec) : Prop :=
  ∀ range, pace = some (.duration range) → 1 < targetChunks len →
    (targetChunks len - 1) % 2 ^ 32 ≠ 0

theorem gapsFit_of_lt {len : ℕ} (h : len < 2 ^ 45) (pace : Option PaceSpec) :
    GapsFit len pace := by
  intro range _ hgaps
  rw [Nat.mod_eq_of_lt (targetChunks_lt h)]
  omega

private theorem addInstant_of_lt {now : Instant} {d : Duration}
    (h : now.nanos + d.nanos < 2 ^ 63 * 10 ^ 9) : ∃ t, addInstant now d = .ok t := by
  rw [addInstant, Instant.checkedAdd, dif_pos h]
  exact ⟨_, rfl⟩

private theorem addInstant_of_not_lt {now : Instant} {d : Duration}
    (h : ¬ now.nanos + d.nanos < 2 ^ 63 * 10 ^ 9) : addInstant now d = .error .overflow := by
  rw [addInstant, Instant.checkedAdd, dif_neg h]

private theorem sampleBytes_ok (r : Range ByteSize) (rng : Rng) :
    ∃ n rng', sampleBytes r rng = .ok (n, rng') := by
  cases r <;> exact ⟨_, _, rfl⟩

private theorem sampleFirstByte_ok {firstByte : Option (Range Duration)}
    (h : ∀ range, firstByte = some range → range.FromSecs) (rng : Rng) :
    ∃ d rng', sampleFirstByte firstByte rng = .ok (d, rng') := by
  cases firstByte with
  | none => exact ⟨none, rng, rfl⟩
  | some range =>
    obtain ⟨d, rng', hd⟩ := (h range rfl).sample_ok rng
    exact ⟨some d, rng', (sampler_bind_of_ok hd).trans rfl⟩

private theorem sampleDrop_cases {drop : Option DropSpec}
    (h : ∀ range, drop = some (.afterTime range) → range.FromSecs) (now : Instant) (rng : Rng) :
    ∃ time rng', sampleDropTime drop rng = .ok (time, rng') ∧
      (InReach now time → ∃ r, sampleDrop now drop rng = .ok (r, rng')) ∧
      (¬ InReach now time → sampleDrop now drop rng = .error .overflow) := by
  rcases drop with _ | (r | r)
  · refine ⟨none, rng, rfl, fun _ => ⟨_, rfl⟩, fun hnot => absurd ?_ hnot⟩
    simp [InReach]
  · obtain ⟨n, rng', hn⟩ := sampleBytes_ok r rng
    refine ⟨none, rng', (sampler_bind_of_ok hn).trans rfl, fun _ => ⟨(some n, none), ?_⟩,
      fun hnot => absurd ?_ hnot⟩
    · exact (sampler_bind_of_ok hn).trans rfl
    · simp [InReach]
  · obtain ⟨d, rng', hd⟩ := (h r rfl).sample_ok rng
    refine ⟨some d, rng', (sampler_bind_of_ok hd).trans rfl, ?_, ?_⟩
    · intro hreach
      obtain ⟨t, ht⟩ := addInstant_of_lt (hreach d rfl)
      have hdeadline : sampleDeadline now r rng = .ok (t, rng') :=
        (sampler_bind_of_ok hd).trans (liftPanic_ok.mpr ⟨ht, rfl⟩)
      exact ⟨(none, some t), (sampler_bind_of_ok hdeadline).trans rfl⟩
    · intro hnot
      have hlate : ¬ now.nanos + d.nanos < 2 ^ 63 * 10 ^ 9 := by
        simpa [InReach] using hnot
      have hdeadline : sampleDeadline now r rng = .error .overflow :=
        (sampler_bind_of_ok hd).trans (liftPanic_error (addInstant_of_not_lt hlate) rng')
      exact sampler_bind_of_error hdeadline

private theorem speedDelay_ok {bps : ℕ} (hpos : bps ≠ 0) (hlt : bps < 2 ^ 64) :
    ∃ d, fromSecsF64 (F64.ofNat (max (bps / 10) 1) / F64.ofNat bps) = .ok d := by
  have h61 : powInt 2 61 = 2 ^ 61 := by decide +kernel
  have h64 : powInt 2 64 = 2 ^ 64 := by decide +kernel
  have hchunk : ((max (bps / 10) 1 : ℕ) : ℚ) ≤ powInt 2 61 := by
    have hle : max (bps / 10) 1 ≤ 2 ^ 61 := by omega
    rw [h61]
    exact_mod_cast hle
  have hbps : (1 : ℚ) ≤ bps := by exact_mod_cast Nat.one_le_iff_ne_zero.mpr hpos
  have hbps' : (bps : ℚ) ≤ powInt 2 64 := by
    rw [h64]
    exact_mod_cast hlt.le
  obtain ⟨c, hc, _, hc0, hc61⟩ := F64.ofRat_between representable_zero
    (representable_powInt (by norm_num) (by norm_num)) (Nat.cast_nonneg _) hchunk
  obtain ⟨b, hb, _, hb1, _⟩ := F64.ofRat_between representable_one
    (representable_powInt (by norm_num) (by norm_num)) hbps hbps'
  have hquot0 : 0 ≤ c.1 / b.1 := div_nonneg hc0 (by linarith)
  have hquot : c.1 / b.1 ≤ powInt 2 61 := (div_le_self hc0 hb1).trans hc61
  obtain ⟨q, hq, _, hq0, hq61⟩ := F64.ofRat_between representable_zero
    (representable_powInt (by norm_num) (by norm_num)) hquot0 hquot
  have hsome : (Duration.fromSecsF64 (.finite q)).isSome :=
    Duration.isSome_fromSecsF64_iff.mpr ⟨q, rfl, hq0, by rw [h61] at hq61; linarith⟩
  obtain ⟨d, hd⟩ := Option.isSome_iff_exists.mp hsome
  refine ⟨d, ?_⟩
  rw [F64.ofNat, F64.ofNat, hc, hb, F64.finite_div_finite _ (by linarith), hq, fromSecsF64, hd]

private theorem samplePace_cases (len : ℕ) {pace : Option PaceSpec}
    (hduration : ∀ range, pace = some (.duration range) → range.FromSecs)
    (hinterval : ∀ size range, pace = some (.chunk size range) → range.FromSecs) (rng : Rng) :
    (GapsFit len pace → ∃ r rng', samplePace len pace rng = .ok (r, rng')) ∧
      (¬ GapsFit len pace → samplePace len pace rng = .error .divideByZero) := by
  rcases pace with _ | (range | range | ⟨size, interval⟩)
  · exact ⟨fun _ => ⟨_, _, rfl⟩, fun hnot => absurd (fun _ h => by cases h) hnot⟩
  · obtain ⟨d, rng', hd⟩ := (hduration range rfl).sample_ok rng
    rw [samplePace_duration_eq, sampler_bind_of_ok hd]
    by_cases hgaps : 1 < targetChunks len
    · rw [if_pos hgaps]
      constructor
      · intro hfit
        have hdiv : ∃ q, divDuration d ((targetChunks len - 1) % 2 ^ 32) = .ok q := by
          rw [divDuration, Duration.divNat, if_neg (hfit range rfl hgaps)]
          exact ⟨_, rfl⟩
        obtain ⟨q, hq⟩ := hdiv
        rw [sampler_bind_of_ok (liftPanic_ok.mpr ⟨hq, rfl⟩)]
        exact ⟨_, _, rfl⟩
      · intro hnot
        have hzero : (targetChunks len - 1) % 2 ^ 32 = 0 := by
          by_contra hne
          exact hnot fun _ _ _ => hne
        refine sampler_bind_of_error (liftPanic_error ?_ rng')
        rw [hzero, divDuration, Duration.divNat, if_pos rfl]
    · rw [if_neg hgaps]
      exact ⟨fun _ => ⟨_, _, rfl⟩, fun hnot => absurd (fun _ _ h => absurd h hgaps) hnot⟩
  · refine ⟨fun _ => ?_, fun hnot => absurd (fun _ h => by cases h) hnot⟩
    obtain ⟨speed, rng', hspeed⟩ : ∃ speed rng', range.sample rng = .ok (speed, rng') := by
      cases range <;> exact ⟨_, _, rfl⟩
    rw [samplePace, sampler_bind_of_ok hspeed]
    dsimp only
    split_ifs with hzero
    · exact ⟨_, _, rfl⟩
    · obtain ⟨d, hd⟩ := speedDelay_ok hzero speed.bytesPerSec.toNat_lt
      rw [sampler_bind_of_ok (liftPanic_ok.mpr ⟨hd, rfl⟩)]
      exact ⟨_, _, rfl⟩
  · refine ⟨fun _ => ?_, fun hnot => absurd (fun _ h => by cases h) hnot⟩
    obtain ⟨n, rng₁, hn⟩ := sampleBytes_ok size rng
    obtain ⟨d, rng₂, hd⟩ := (hinterval size interval rfl).sample_ok rng₁
    rw [samplePace, sampler_bind_of_ok hn, sampler_bind_of_ok hd]
    exact ⟨_, _, rfl⟩

private theorem not_ok_of_error {α : Type} {m : Sampler α} {rng : Rng} {p : Panic}
    (h : m rng = .error p) : ¬ ∃ a rng', m rng = .ok (a, rng') := by
  rintro ⟨a, rng', ha⟩
  cases h.symm.trans ha

theorem deliver_starts_iff {spec : DeliverySpec} (h : spec.FromSecs) (body : List UInt8)
    (dropNow hangNow : Instant) (rng : Rng) :
    ∃ dropTime hangTime rng₁, sampleTimes spec rng = .ok ((dropTime, hangTime), rng₁) ∧
      ((∃ s rng', deliver body spec dropNow hangNow rng = .ok (s, rng')) ↔
        InReach dropNow dropTime ∧ InReach hangNow hangTime ∧ GapsFit body.length spec.pace) ∧
      (GapsFit body.length spec.pace → ∀ p, deliver body spec dropNow hangNow rng = .error p →
        p = .overflow) := by
  have hhangRange : ∀ range, spec.hang.map HangSpec.toDrop = some (.afterTime range) →
      range.FromSecs := by
    intro range hrange
    obtain ⟨hang, hhang, hdrop⟩ := Option.map_eq_some_iff.mp hrange
    cases hang with
    | afterBytes r => cases hdrop
    | afterTime r =>
      cases hdrop
      exact h.hang _ hhang
  obtain ⟨fb, rng₁, hfirst⟩ := sampleFirstByte_ok h.firstByte rng
  obtain ⟨dropTime, rng₂, hdropTime, hdropOk, hdropErr⟩ := sampleDrop_cases h.drop dropNow rng₁
  obtain ⟨hangTime, rng₃, hhangTime, hhangOk, hhangErr⟩ := sampleDrop_cases hhangRange hangNow rng₂
  rw [← sampleHang_eq] at hhangOk hhangErr
  obtain ⟨hpaceOk, hpaceErr⟩ :=
    samplePace_cases body.length h.duration h.interval rng₃
  have htimes : sampleTimes spec rng = .ok ((dropTime, hangTime), rng₃) := by
    rw [sampleTimes, sampler_bind_of_ok hfirst, sampler_bind_of_ok hdropTime,
      sampler_bind_of_ok hhangTime]
    rfl
  refine ⟨dropTime, hangTime, rng₃, htimes, ?_⟩
  by_cases hdrop : InReach dropNow dropTime
  · obtain ⟨⟨dropBytes, dropDeadline⟩, hdropS⟩ := hdropOk hdrop
    by_cases hhang : InReach hangNow hangTime
    · obtain ⟨⟨hangBytes, hangDeadline⟩, hhangS⟩ := hhangOk hhang
      by_cases hgaps : GapsFit body.length spec.pace
      · obtain ⟨⟨size, delay⟩, rng', hpace⟩ := hpaceOk hgaps
        have hdeliver := DeliveryStream.deliver_of_samples hfirst hdropS hhangS hpace
        exact ⟨iff_of_true ⟨_, _, hdeliver⟩ ⟨hdrop, hhang, hgaps⟩,
          fun _ p hp => by cases hdeliver.symm.trans hp⟩
      · have hdeliver : deliver body spec dropNow hangNow rng = .error .divideByZero := by
          rw [deliver, sampler_bind_of_ok hfirst, sampler_bind_of_ok hdropS]
          refine (sampler_bind_of_ok hhangS).trans ?_
          exact sampler_bind_of_error (hpaceErr hgaps)
        exact ⟨iff_of_false (not_ok_of_error hdeliver) fun hall => hgaps hall.2.2,
          fun hfit => absurd hfit hgaps⟩
    · have hdeliver : deliver body spec dropNow hangNow rng = .error .overflow := by
        rw [deliver, sampler_bind_of_ok hfirst, sampler_bind_of_ok hdropS]
        exact sampler_bind_of_error (hhangErr hhang)
      exact ⟨iff_of_false (not_ok_of_error hdeliver) fun hall => hhang hall.2.1,
        fun _ p hp => (Except.error.inj (hdeliver.symm.trans hp)).symm⟩
  · have hdeliver : deliver body spec dropNow hangNow rng = .error .overflow := by
      rw [deliver, sampler_bind_of_ok hfirst]
      exact sampler_bind_of_error (hdropErr hdrop)
    exact ⟨iff_of_false (not_ok_of_error hdeliver) fun hall => hdrop hall.1,
      fun _ p hp => (Except.error.inj (hdeliver.symm.trans hp)).symm⟩

/-- An accepted delivery starts, with chunks of at least one byte, exactly when the drop time and
the hang time it draws are within the range of the clock; past it the one panic is the overflow of
the addition. -/
theorem deliver_total_iff {obj : Map} {spec : DeliverySpec} {body : List UInt8}
    (hparse : parseDeliveryFields obj = .ok spec) (hlen : body.length < 2 ^ 45)
    (dropNow hangNow : Instant) (rng : Rng) :
    ∃ dropTime hangTime rng₁, sampleTimes spec rng = .ok ((dropTime, hangTime), rng₁) ∧
      ((∃ s rng', deliver body spec dropNow hangNow rng = .ok (s, rng') ∧ 1 ≤ s.chunkSize) ↔
        InReach dropNow dropTime ∧ InReach hangNow hangTime) ∧
      ∀ p, deliver body spec dropNow hangNow rng = .error p → p = .overflow := by
  have hgaps := gapsFit_of_lt hlen spec.pace
  obtain ⟨dropTime, hangTime, rng₁, htimes, hiff, herror⟩ :=
    deliver_starts_iff (parseDeliveryFields_fromSecs hparse) body dropNow hangNow rng
  refine ⟨dropTime, hangTime, rng₁, htimes, ?_, herror hgaps⟩
  constructor
  · rintro ⟨s, rng', hs, _⟩
    obtain ⟨hdrop, hhang, _⟩ := hiff.mp ⟨s, rng', hs⟩
    exact ⟨hdrop, hhang⟩
  · rintro ⟨hdrop, hhang⟩
    obtain ⟨s, rng', hs⟩ := hiff.mpr ⟨hdrop, hhang, hgaps⟩
    exact ⟨s, rng', hs, (DeliveryStream.deliver_spec hs).2.2.1⟩

theorem deliver_total_iff_two_bytes :
    let obj : Map := IndexMap.ofEntries
      [("pace", .string "1s..2s"), ("drop", .string "3s"), ("first_byte", .string "1s..50%")]
      (by decide)
    ∃ spec, parseDeliveryFields obj = .ok spec ∧
      ∃ dropTime hangTime rng₁,
        sampleTimes spec ⟨fun _ => 5⟩ = .ok ((dropTime, hangTime), rng₁) ∧
        ((∃ s rng', deliver [1, 2] spec .zero .zero ⟨fun _ => 5⟩ = .ok (s, rng') ∧
            1 ≤ s.chunkSize) ↔ InReach .zero dropTime ∧ InReach .zero hangTime) ∧
        ∀ p, deliver [1, 2] spec .zero .zero ⟨fun _ => 5⟩ = .error p → p = .overflow := by
  intro obj
  have hsome : (parseDeliveryFields obj).toOption.isSome = true := by decide +kernel
  obtain ⟨spec, hspec⟩ : ∃ spec, parseDeliveryFields obj = .ok spec := by
    cases h : parseDeliveryFields obj with
    | error e => rw [h] at hsome; cases hsome
    | ok spec => exact ⟨spec, rfl⟩
  exact ⟨spec, hspec, deliver_total_iff hspec (by decide) .zero .zero ⟨fun _ => 5⟩⟩

/-- A drop time of ten quintillion seconds overflows the clock. -/
theorem drop_time_overflows :
    let obj : Map := IndexMap.ofEntries [("drop", .string "1e19s")] (by decide)
    (parseDeliveryFields obj).toOption.map
      (fun spec => (deliver [1, 2] spec .zero .zero ⟨fun _ => 0⟩).toOption.isSome) =
        some false := by
  decide +kernel

end Mockinx
