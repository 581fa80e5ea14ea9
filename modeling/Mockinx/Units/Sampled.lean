import Mockinx.Lib.F64Whole
import Mockinx.Serve.DeliverTotal

/-!
Samples of a range stay within it. The interpolation runs in floats, so it is the conversions back
that decide whether a sample can pass an end of the range.
-/

set_option autoImplicit false
set_option relaxedAutoImplicit false

namespace Mockinx

open Lib Lib.Text

private theorem inf_div_hundred (s : Bool) : (.inf s / F64.ofNat 100 : F64) = .inf s := by
  rw [F64.ofNat_eq (by norm_num)]
  change F64.inf (xor s (decide (((100 : ℕ) : ℚ) < 0))) = _
  rw [decide_eq_false (by norm_num), Bool.xor_false]

private theorem scaled_atMost {x : {q : ℚ // Representable q}} (hx : 0 ≤ x.1) {pct : F64}
    (hneg : ¬ pct < 0) :
    F64.AtMost (.finite x * (F64.ofNat 1 - pct / F64.ofNat 100))
      (.finite x * (F64.ofNat 1 + pct / F64.ofNat 100)) := by
  cases pct with
  | nan =>
    have hlower : (F64.ofNat 1 - .nan / F64.ofNat 100 : F64) = .nan := by
      rw [F64.one_eq]
      rfl
    rw [hlower]
    trivial
  | inf s =>
    have hlower : (F64.ofNat 1 - .inf s / F64.ofNat 100 : F64) = .inf (!s) := by
      rw [inf_div_hundred, F64.one_eq]
      rfl
    cases s with
    | true =>
      rw [F64.zero_eq] at hneg
      exact absurd rfl hneg
    | false =>
      rw [hlower]
      change F64.AtMost (if x.1 = 0 then .nan else .inf (xor (decide (x.1 < 0)) true)) _
      rw [decide_eq_false (not_lt.mpr hx)]
      split_ifs <;> trivial
  | finite p =>
    obtain ⟨f, hf, hf0, hf1018, _⟩ := exists_fraction (F64.not_neg_iff.mp hneg)
    obtain ⟨l, hl, hl1, _⟩ := exists_lower_factor hf0 hf1018
    obtain ⟨u, hu, hu1⟩ := exists_upper_factor hf0 hf1018
    rw [hf, hl, hu, F64.finite_mul_finite, F64.finite_mul_finite]
    exact (F64.ofRat_atMost (mul_le_of_le_one_right hx hl1)).trans
      (F64.atMost_ofRat hx (le_mul_of_one_le_right hx hu1))

structure Gauge (α : Type) [Scalable α] where
  amount : α → ℕ
  toFloat : α → F64
  /-- There is no amount where the conversion panics. -/
  ofFloat : F64 → Option α
  rank : ∀ a, Scalable.rank a = amount a
  lerp : ∀ a b t c, Scalable.lerp a b t = .ok c ↔
    ofFloat (toFloat a + (toFloat b - toFloat a) * t) = some c
  scale : ∀ a f c, Scalable.scale a f = .ok c ↔ ofFloat (toFloat a * f) = some c
  mono : ∀ x y a b, ofFloat x = some a → ofFloat y = some b → F64.AtMost x y → amount a ≤ amount b
  convex : ∀ x r y : {q : ℚ // Representable q}, (ofFloat (.finite x)).isSome →
    (ofFloat (.finite y)).isSome → x.1 ≤ r.1 → r.1 ≤ y.1 → (ofFloat (.finite r)).isSome
  bounded : ∀ a, ∃ x, toFloat a = .finite x ∧ 0 ≤ x.1 ∧ x.1 ≤ powInt 2 1000

namespace Range

variable {α : Type}

def low : Range α → α
  | .fixed v => v
  | .minMax min _ => min

def high : Range α → α
  | .fixed v => v
  | .minMax _ max => max

/-- Every sample is between the ends. -/
def Holds [Scalable α] (amount : α → ℕ) (range : Range α) : Prop :=
  ∀ rng, ∃ v rng', range.sample rng = .ok (v, rng') ∧
    amount range.low ≤ amount v ∧ amount v ≤ amount range.high

end Range

private theorem orPanic_ok {α : Type} {r : Except Panic α} {a : α} :
    orPanic r = .ok a ↔ r = .ok a := by
  cases r <;> simp [orPanic]

inductive RangeOrigin {α : Type} [Scalable α] (parse : List Char → Parse α) : Range α → Prop
  | fixed {text : List Char} {v : α} (hv : parse text = .ok v) : RangeOrigin parse (.fixed v)
  | given {text text' : List Char} {min max : α} (hmin : parse text = .ok min)
      (hmax : parse text' = .ok max) (hlt : Scalable.rank min < Scalable.rank max) :
      RangeOrigin parse (.minMax min max)
  | scaled {text : List Char} {base lo hi : α} {pct : F64} (hbase : parse text = .ok base)
      (hneg : ¬ pct < 0)
      (hlo : Scalable.scale base (F64.ofNat 1 - pct / F64.ofNat 100) = .ok lo)
      (hhi : Scalable.scale base (F64.ofNat 1 + pct / F64.ofNat 100) = .ok hi) :
      RangeOrigin parse (.minMax lo hi)

private theorem parseRangeStr_origin {α : Type} [Scalable α] {parse : List Char → Parse α}
    {text : List Char} {range : Range α} (h : parseRangeStr parse text = .ok range) :
    RangeOrigin parse range := by
  rw [parseRangeStr] at h
  dsimp only at h
  split at h
  · split at h
    · obtain ⟨base, hbase, h⟩ := parse_bind_ok.mp h
      obtain ⟨pct, _, h⟩ := parse_bind_ok.mp h
      split_ifs at h with hneg
      · cases h
      · cases h
        exact .fixed hbase
      · obtain ⟨lo, hlo, h⟩ := parse_bind_ok.mp h
        obtain ⟨hi, hhi, h⟩ := parse_bind_ok.mp h
        cases h
        exact .scaled hbase hneg (orPanic_ok.mp hlo) (orPanic_ok.mp hhi)
    · obtain ⟨min, hmin, h⟩ := parse_bind_ok.mp h
      obtain ⟨max, hmax, h⟩ := parse_bind_ok.mp h
      split_ifs at h with hlt heq
      · cases h
      · cases h
        exact .fixed hmin
      · cases h
        exact .given hmin hmax (lt_of_le_of_ne (not_lt.mp hlt) heq)
  · obtain ⟨val, hval, h⟩ := parse_bind_ok.mp h
    cases h
    exact .fixed hval

namespace Gauge

variable {α : Type} [Scalable α] (g : Gauge α)

def Settled (a : α) : Prop := g.ofFloat (g.toFloat a) = some a

private theorem low_le_high {parse : List Char → Parse α} {text : List Char} {range : Range α}
    (h : parseRangeStr parse text = .ok range) : g.amount range.low ≤ g.amount range.high := by
  cases parseRangeStr_origin h with
  | fixed => exact le_rfl
  | given _ _ hlt =>
    rw [g.rank, g.rank] at hlt
    exact hlt.le
  | @scaled text base lo hi pct hbase hneg hlo hhi =>
    obtain ⟨x, hx, hx0, _⟩ := g.bounded base
    rw [g.scale, hx] at hlo hhi
    exact g.mono _ _ _ _ hlo hhi (scaled_atMost hx0 hneg)

private theorem settled_ends (hconvert : ∀ x a, g.ofFloat x = some a → g.Settled a)
    {parse : List Char → Parse α} (hparse : ∀ t v, parse t = .ok v → g.Settled v)
    {text : List Char} {range : Range α} (h : parseRangeStr parse text = .ok range) :
    g.Settled range.low ∧ g.Settled range.high := by
  cases parseRangeStr_origin h with
  | fixed hv => exact ⟨hparse _ _ hv, hparse _ _ hv⟩
  | given hmin hmax => exact ⟨hparse _ _ hmin, hparse _ _ hmax⟩
  | scaled _ _ hlo hhi =>
    rw [g.scale] at hlo hhi
    exact ⟨hconvert _ _ hlo, hconvert _ _ hhi⟩

private theorem holds_of_settled {lo hi : α} (hlo : g.Settled lo) (hhi : g.Settled hi)
    (hle : g.amount lo ≤ g.amount hi) : (Range.minMax lo hi).Holds g.amount := by
  intro rng
  obtain ⟨x, hx, hx0, hx1000⟩ := g.bounded lo
  obtain ⟨y, hy, hy0, hy1000⟩ := g.bounded hi
  obtain ⟨t, ht, ht0, ht1⟩ := rng.float_spec
  obtain ⟨r, hr, hrlo, hrhi⟩ := F64.exists_lerp hx0 hy0 hx1000 hy1000 ht0 ht1
  rw [Settled, hx] at hlo
  rw [Settled, hy] at hhi
  have hsome := Option.isSome_of_eq_some hlo
  have hsome' := Option.isSome_of_eq_some hhi
  -- the ends may have one amount and floats in the other order
  obtain ⟨v, hv, hbetween⟩ : ∃ v, g.ofFloat (.finite r) = some v ∧
      g.amount lo ≤ g.amount v ∧ g.amount v ≤ g.amount hi := by
    rcases le_total x.1 y.1 with hxy | hyx
    · rw [min_eq_left hxy] at hrlo
      rw [max_eq_right hxy] at hrhi
      obtain ⟨v, hv⟩ := Option.isSome_iff_exists.mp (g.convex x r y hsome hsome' hrlo hrhi)
      exact ⟨v, hv, g.mono _ _ _ _ hlo hv hrlo, g.mono _ _ _ _ hv hhi hrhi⟩
    · rw [min_eq_right hyx] at hrlo
      rw [max_eq_left hyx] at hrhi
      obtain ⟨v, hv⟩ := Option.isSome_iff_exists.mp (g.convex y r x hsome' hsome hrlo hrhi)
      have hge := g.mono _ _ _ _ hhi hv hrlo
      have hge' := g.mono _ _ _ _ hv hlo hrhi
      exact ⟨v, hv, hle.trans hge, hge'.trans hle⟩
  refine ⟨v, rng.next, ?_, hbetween⟩
  have hlerp : Scalable.lerp lo hi rng.float = .ok v := by
    rw [g.lerp, hx, hy, ht, hr, hv]
  exact (sampler_bind_of_ok (m := drawFloat) rfl).trans (liftPanic_ok.mpr ⟨hlerp, rfl⟩)

private theorem holds {parse : List Char → Parse α} {text : List Char} {range : Range α}
    (h : parseRangeStr parse text = .ok range) (hlow : g.Settled range.low)
    (hhigh : g.Settled range.high) : range.Holds g.amount := by
  have hle := g.low_le_high h
  cases range with
  | fixed v => exact fun rng => ⟨v, rng, rfl, le_rfl, le_rfl⟩
  | minMax lo hi => exact g.holds_of_settled hlow hhigh hle

end Gauge

private theorem exists_ofNat_count (n : UInt64) :
    ∃ x, F64.ofNat n.toNat = .finite x ∧ 0 ≤ x.1 ∧ x.1 ≤ powInt 2 1000 := by
  have h64 : powInt 2 64 = 2 ^ 64 := by norm_num [F64.powInt_eq_zpow]
  have hle : ((n.toNat : ℕ) : ℚ) ≤ powInt 2 64 := by
    rw [h64]
    exact_mod_cast n.toNat_lt.le
  obtain ⟨x, hx, _, hlo, hhi⟩ := F64.ofRat_between representable_zero
    (representable_powInt (by norm_num) (by norm_num)) (Nat.cast_nonneg n.toNat) hle
  exact ⟨x, hx, hlo, hhi.trans (F64.powInt_le_powInt.mpr (by norm_num))⟩

def countGauge {α : Type} [Scalable α] (count : α → UInt64) (ofCount : UInt64 → α)
    (hcount : ∀ n, count (ofCount n) = n)
    (hrank : ∀ a : α, Scalable.rank a = (count a).toNat)
    (hlerp : ∀ a b t, Scalable.lerp a b t = .ok (ofCount (lerpU64 (count a) (count b) t)))
    (hscale : ∀ a f, Scalable.scale a f = .ok (ofCount (scaleU64 (count a) f))) : Gauge α where
  amount a := (count a).toNat
  toFloat a := F64.ofNat (count a).toNat
  ofFloat x := some (ofCount x.toU64)
  rank := hrank
  lerp a b t c := by simp [hlerp, lerpU64]
  scale a f c := by simp [hscale, scaleU64]
  mono x y a b ha hb h := by
    rw [← Option.some.inj ha, ← Option.some.inj hb, hcount, hcount]
    exact F64.toU64_mono h
  convex _ _ _ _ _ _ _ := rfl
  bounded a := exists_ofNat_count (count a)

def byteSizeGauge : Gauge ByteSize :=
  countGauge ByteSize.bytes ByteSize.mk (fun _ => rfl) (fun _ => rfl) (fun _ _ _ => rfl)
    fun _ _ => rfl

def speedGauge : Gauge Speed :=
  countGauge Speed.bytesPerSec Speed.mk (fun _ => rfl) (fun _ => rfl) (fun _ _ _ => rfl)
    fun _ _ => rfl

private theorem fromSecsF64_ok {x : F64} {d : Duration} :
    fromSecsF64 x = .ok d ↔ Duration.fromSecsF64 x = some d := by
  rw [fromSecsF64]
  cases Duration.fromSecsF64 x <;> simp

def durationGauge : Gauge Duration where
  amount d := d.nanos
  toFloat := Duration.asSecsF64
  ofFloat := Duration.fromSecsF64
  rank _ := rfl
  lerp _ _ _ _ := fromSecsF64_ok
  scale _ _ _ := fromSecsF64_ok
  mono _ _ _ _ ha hb h := Duration.fromSecsF64_mono ha hb h
  convex x r y hx hy hlo hhi := by
    obtain ⟨_, hx', hx0, _⟩ := Duration.isSome_fromSecsF64_iff.mp hx
    obtain ⟨_, hy', _, hy64⟩ := Duration.isSome_fromSecsF64_iff.mp hy
    cases hx'
    cases hy'
    exact Duration.isSome_fromSecsF64_iff.mpr
      ⟨r, rfl, hx0.trans hlo, hhi.trans_lt hy64⟩
  bounded d := by
    obtain ⟨a, ha, ha0, ha65, _⟩ := d.exists_asSecsF64
    exact ⟨a, ha, ha0, ha65.trans (F64.powInt_le_powInt.mpr (by norm_num))⟩

private theorem byteSize_settled {x : F64} {v : ByteSize} (h : byteSizeGauge.ofFloat x = some v) :
    byteSizeGauge.Settled v := by
  obtain rfl := Option.some.inj h
  exact congrArg (some ∘ ByteSize.mk) (F64.toU64_ofNat_toU64 x)

private theorem speed_settled {x : F64} {v : Speed} (h : speedGauge.ofFloat x = some v) :
    speedGauge.Settled v := by
  obtain rfl := Option.some.inj h
  exact congrArg (some ∘ Speed.mk) (F64.toU64_ofNat_toU64 x)

private theorem exists_float_of_size {text : List Char} {v : ByteSize}
    (h : parseByteSize text = .ok v) :
    ∃ x : F64, v.bytes = x.toU64 := by
  rw [parseByteSize] at h
  dsimp only at h
  split_ifs at h
  · cases h
  · obtain ⟨⟨numStr, multiplier⟩, _, h⟩ := parse_bind_ok.mp h
    obtain ⟨num, _, h⟩ := parse_bind_ok.mp h
    split_ifs at h
    · cases h
    · obtain rfl := Except.ok.inj h
      exact ⟨_, rfl⟩

private theorem parseByteSize_settled {text : List Char} {v : ByteSize}
    (h : parseByteSize text = .ok v) :
    byteSizeGauge.Settled v := by
  obtain ⟨x, hx⟩ := exists_float_of_size h
  obtain ⟨bytes⟩ := v
  obtain rfl : bytes = x.toU64 := hx
  exact byteSize_settled (x := x) rfl

private theorem parseSpeed_settled {text : List Char} {v : Speed} (h : parseSpeed text = .ok v) :
    speedGauge.Settled v := by
  rw [parseSpeed] at h
  split_ifs at h
  · cases h
  · obtain ⟨sizeStr, _, h⟩ := parse_bind_ok.mp h
    obtain ⟨size, hsize, h⟩ := parse_bind_ok.mp h
    obtain rfl := Except.ok.inj h
    obtain ⟨x, hx⟩ := exists_float_of_size hsize
    rw [hx]
    exact speed_settled (x := x) rfl

/-- The ends of an accepted range are in order and every sample lies between them: of sizes and
speeds always, of durations below the limit to which float seconds are exact. -/
theorem samples_between_ends (s : String) :
    (∀ range, parseByteSizeRange s = .ok range →
      range.low.bytes.toNat ≤ range.high.bytes.toNat ∧ range.Holds fun v => v.bytes.toNat) ∧
    (∀ range, parseSpeedRange s = .ok range →
      range.low.bytesPerSec.toNat ≤ range.high.bytesPerSec.toNat ∧
        range.Holds fun v => v.bytesPerSec.toNat) ∧
    ∀ range, parseDurationRange s = .ok range →
      range.low.nanos ≤ range.high.nanos ∧
        (range.high.nanos < Duration.maxExactNanos → range.Holds fun d => d.nanos) := by
  refine ⟨fun range h => ?_, fun range h => ?_, fun range h => ?_⟩
  · obtain ⟨hlow, hhigh⟩ := byteSizeGauge.settled_ends (fun _ _ => byteSize_settled)
      (fun _ _ => parseByteSize_settled) h
    exact ⟨byteSizeGauge.low_le_high h, byteSizeGauge.holds h hlow hhigh⟩
  · obtain ⟨hlow, hhigh⟩ := speedGauge.settled_ends (fun _ _ => speed_settled)
      (fun _ _ => parseSpeed_settled) h
    exact ⟨speedGauge.low_le_high h, speedGauge.holds h hlow hhigh⟩
  · refine ⟨durationGauge.low_le_high h, fun hlt => ?_⟩
    have hle : range.low.nanos ≤ range.high.nanos := durationGauge.low_le_high h
    exact durationGauge.holds h (Duration.fromSecsF64_asSecsF64 (hle.trans_lt hlt))
      (Duration.fromSecsF64_asSecsF64 hlt)

end Mockinx
