import Mockinx.Lib.TimeBounds
import Mockinx.Units

/-!
When the parser of duration ranges panics. Float seconds are converted to a duration behind checks
on the signs of the numbers; a NaN passes them, and so do numbers that are too large and percentages
over a hundred.
-/

set_option autoImplicit false
set_option relaxedAutoImplicit false

namespace Mockinx

open Lib Lib.Text

def Panics {α : Type} (r : Parse α) : Prop := ∃ p, r = .error (.panic p)

@[simp] theorem not_panics_ok {α : Type} (a : α) : ¬ Panics (.ok a) := by
  rintro ⟨p, h⟩
  cases h

@[simp] theorem not_panics_pure {α : Type} (a : α) : ¬ Panics (pure a) := not_panics_ok a

@[simp] theorem not_panics_fail {α : Type} (msg : String) : ¬ Panics (fail msg : Parse α) := by
  rintro ⟨p, h⟩
  cases h

@[simp] theorem not_panics_okOr {α : Type} (v : Option α) (msg : String) :
    ¬ Panics (okOr v msg) := by
  cases v with
  | none => exact not_panics_fail msg
  | some a => exact not_panics_ok a

theorem not_panics_bind {α β : Type} {m : Parse α} {f : α → Parse β} :
    ¬ Panics (m >>= f) ↔ ¬ Panics m ∧ ∀ a, m = .ok a → ¬ Panics (f a) := by
  cases m with
  | error e => simp [Panics, bind, Except.bind]
  | ok a => simp [Panics, bind, Except.bind]

private theorem panics_convert {x : F64} :
    Panics (orPanic (fromSecsF64 x)) ↔ (Duration.fromSecsF64 x).isSome = false := by
  rw [fromSecsF64]
  cases Duration.fromSecsF64 x with
  | none => simp [orPanic, Panics]
  | some d => simp [orPanic, Panics]

theorem convert_ok {x : F64} {d : Duration} :
    orPanic (fromSecsF64 x) = .ok d ↔ Duration.fromSecsF64 x = some d := by
  rw [fromSecsF64]
  cases Duration.fromSecsF64 x <;> simp [orPanic]

/-- The float seconds of a duration text that is read as a number with a unit and without a
negative sign. -/
def durationSecs (text : List Char) : Option F64 :=
  let s := toLowercase (trim text)
  if s = [] then none
  else
    (stripUnit durationUnits s).bind fun (numStr, factorSecs) =>
      (F64.parse numStr).bind fun num => if num < 0 then none else some (num * factorSecs)

private theorem parseDuration_of_secs {text : List Char} {x : F64}
    (h : durationSecs text = some x) :
    parseDuration text = orPanic (fromSecsF64 x) := by
  rw [durationSecs] at h
  rw [parseDuration]
  dsimp only at h ⊢
  split_ifs at h ⊢ with hempty
  obtain ⟨⟨numStr, factorSecs⟩, hunit, h⟩ := Option.bind_eq_some_iff.mp h
  obtain ⟨num, hnum, h⟩ := Option.bind_eq_some_iff.mp h
  rw [hunit]
  change (okOr (F64.parse numStr) _ >>= _) = _
  rw [hnum]
  split_ifs at h with hneg
  obtain rfl := Option.some.inj h
  exact if_neg hneg

theorem parseDuration_of_secs_none {text : List Char} (h : durationSecs text = none) :
    ∃ e, parseDuration text = .error (.error e) := by
  rw [durationSecs] at h
  rw [parseDuration]
  dsimp only at h ⊢
  split_ifs at h ⊢ with hempty
  · exact ⟨_, rfl⟩
  · cases hunit : stripUnit durationUnits (toLowercase (trim text)) with
    | none => exact ⟨_, rfl⟩
    | some unit =>
      obtain ⟨numStr, factorSecs⟩ := unit
      change ∃ e, (okOr (F64.parse numStr) _ >>= _) = _
      rw [hunit, Option.bind_some] at h
      cases hnum : F64.parse numStr with
      | none => exact ⟨_, rfl⟩
      | some num =>
        rw [hnum, Option.bind_some] at h
        split_ifs at h with hneg
        exact ⟨_, if_pos hneg⟩

def InClock (x : F64) : Prop := ∃ q, x = .finite q ∧ q.1 < 2 ^ 64

private theorem factor_nonneg {s numStr : List Char} {factorSecs : F64}
    (h : stripUnit durationUnits s = some (numStr, factorSecs)) :
    ∃ u, factorSecs = .finite u ∧ 0 ≤ u.1 := by
  obtain ⟨unit, hunit, hstrip⟩ := List.exists_of_findSome?_eq_some h
  obtain ⟨_, _, heq⟩ := Option.map_eq_some_iff.mp hstrip
  obtain ⟨_, rfl⟩ := Prod.mk.inj heq
  simp only [durationUnits, List.mem_cons, List.not_mem_nil, or_false] at hunit
  rcases hunit with rfl | rfl | rfl
  · obtain ⟨u, hu, _, hlo, _⟩ :=
      F64.ofRat_between (q := 1 / 1000) representable_zero representable_one (by norm_num)
        (by norm_num)
    exact ⟨u, hu, hlo⟩
  · exact ⟨_, F64.ofNat_eq (by norm_num), by norm_num⟩
  · exact ⟨_, F64.ofNat_eq (by norm_num), by norm_num⟩

private theorem durationSecs_nonneg {text : List Char} {q : {q : ℚ // Representable q}}
    (h : durationSecs text = some (.finite q)) : 0 ≤ q.1 := by
  rw [durationSecs] at h
  dsimp only at h
  split_ifs at h with hempty
  obtain ⟨⟨numStr, factorSecs⟩, hunit, h⟩ := Option.bind_eq_some_iff.mp h
  obtain ⟨num, hnum, h⟩ := Option.bind_eq_some_iff.mp h
  dsimp only at h
  split_ifs at h with hneg
  obtain ⟨u, rfl, hu⟩ := factor_nonneg hunit
  have hmul := Option.some.inj h
  cases num with
  | nan => cases hmul
  | inf s =>
    change F64.mul (.inf s) (.finite u) = _ at hmul
    rw [F64.mul] at hmul
    split_ifs at hmul
  | finite n =>
    rw [F64.finite_mul_finite] at hmul
    rw [F64.val_of_ofRat hmul]
    exact F64.le_roundRat representable_zero (mul_nonneg (F64.not_neg_iff.mp hneg) hu)

private theorem not_panics_parseDuration_iff (text : List Char) :
    ¬ Panics (parseDuration text) ↔ ∀ x ∈ durationSecs text, InClock x := by
  cases hsecs : durationSecs text with
  | none =>
    obtain ⟨e, he⟩ := parseDuration_of_secs_none hsecs
    simp [he, Panics]
  | some x =>
    rw [parseDuration_of_secs hsecs, panics_convert, Bool.not_eq_false,
      Duration.isSome_fromSecsF64_iff]
    simp only [Option.mem_def, Option.some.injEq, forall_eq']
    constructor
    · rintro ⟨q, rfl, _, hlt⟩
      exact ⟨q, rfl, hlt⟩
    · rintro ⟨q, rfl, hlt⟩
      exact ⟨q, rfl, durationSecs_nonneg hsecs, hlt⟩

def readDuration (text : List Char) : Option Duration :=
  (durationSecs text).bind Duration.fromSecsF64

theorem parseDuration_ok {text : List Char} {d : Duration} :
    parseDuration text = .ok d ↔ readDuration text = some d := by
  rw [readDuration]
  cases hsecs : durationSecs text with
  | none =>
    obtain ⟨e, he⟩ := parseDuration_of_secs_none hsecs
    simp [he]
  | some x =>
    rw [parseDuration_of_secs hsecs, convert_ok]
    rfl

def PercentInClock (d : Duration) (pct : F64) : Prop :=
  (∃ p, pct = .finite p ∧ (p.1 ≤ 100 ∨ d.nanos = 0)) ∧
    InClock (d.asSecsF64 * (F64.ofNat 1 + pct / F64.ofNat 100))

private theorem representable_one_add : Representable (1 + powInt 2 (-52)) :=
  ⟨2 ^ 52 + 1, -52, by norm_num, by norm_num, by norm_num, by decide +kernel⟩

private theorem over_one_of_over_hundred {p : ℚ} (hp : Representable p) (h : 100 < p) :
    1 + powInt 2 (-52) ≤ F64.roundRat (p / 100) := by
  have hsplit : (100 : ℚ) = ((100 * 2 ^ 46 : ℤ) : ℚ) * powInt 2 (-46) := by decide +kernel
  have hsucc : 100 + powInt 2 (-46) ≤ p := by
    have hlt := h
    rw [hsplit] at hlt
    have hle := hp.succ_le (by norm_num) hlt
    rw [add_mul, ← hsplit, one_mul] at hle
    exact hle
  rcases le_or_gt (1 + powInt 2 (-52)) (p / 100) with hlarge | hsmall
  · exact F64.le_roundRat representable_one_add hlarge
  · -- the hundredth is within the last digit over one, and is rounded up
    have h53 : powInt 2 (-53) < powInt 2 (-46) / 100 := by decide +kernel
    have hover : 1 + powInt 2 (-46) / 100 ≤ p / 100 := by linarith
    have hpos46 := F64.powInt_pos (-46)
    have hquantum : F64.quantum (p / 100) ≤ -52 := by
      refine F64.quantum_le (k := 1) (by norm_num) ?_
      have htwo : 1 + powInt 2 (-52) < powInt 2 1 := by decide +kernel
      rw [abs_of_pos (by linarith)]
      exact hsmall.trans htwo
    have herror : |F64.roundRat (p / 100) - p / 100| ≤ powInt 2 (-53) :=
      (F64.abs_roundRat_sub_le _).trans (F64.powInt_le_powInt.mpr (by omega))
    have hone : (1 : ℚ) = ((2 ^ 52 : ℤ) : ℚ) * powInt 2 (-52) := by decide +kernel
    have hround : ((2 ^ 52 : ℤ) : ℚ) * powInt 2 (-52) < F64.roundRat (p / 100) := by
      rw [← hone]
      have := (abs_le.mp herror).1
      linarith
    have hrep : Representable (F64.roundRat (p / 100)) := by
      refine F64.representable_roundRat ?_
      have h2 : (2 : ℚ) < powInt 2 1024 := by decide +kernel
      have htwo : 1 + powInt 2 (-52) + powInt 2 (-53) < 2 := by decide +kernel
      have := (abs_le.mp herror).2
      rw [← hone] at hround
      rw [abs_of_pos (by linarith)]
      linarith
    have hle := hrep.succ_le (by norm_num) hround
    rw [add_mul, ← hone, one_mul] at hle
    exact hle

theorem exists_fraction {p : {q : ℚ // Representable q}} (hp : 0 ≤ p.1) :
    ∃ f, (.finite p / F64.ofNat 100 : F64) = .finite f ∧ 0 ≤ f.1 ∧ f.1 ≤ powInt 2 1018 ∧
      (p.1 ≤ 100 → f.1 ≤ 1) ∧ (100 < p.1 → 1 + powInt 2 (-52) ≤ f.1) := by
  have hdiv : (.finite p / F64.ofNat 100 : F64) = .ofRat (p.1 / 100) := by
    rw [F64.ofNat_eq (by norm_num), F64.finite_div_finite _ (by norm_num)]
    norm_num
  have hle : p.1 / 100 ≤ powInt 2 1018 := by
    have hlt := (abs_lt.mp p.2.abs_lt).2
    have h1024 : powInt 2 1024 ≤ powInt 2 1018 * 100 := by decide +kernel
    rw [div_le_iff₀ (by norm_num)]
    linarith
  obtain ⟨f, hf, hround, hlo, hhi⟩ := F64.ofRat_between representable_zero
    (representable_powInt (by norm_num) (by norm_num)) (by positivity) hle
  refine ⟨f, hdiv.trans hf, hlo, hhi, ?_, ?_⟩
  · intro h
    rw [hround]
    refine F64.roundRat_le representable_one ?_
    rw [div_le_iff₀ (by norm_num)]
    linarith
  · intro h
    rw [hround]
    exact over_one_of_over_hundred p.2 h

theorem exists_lower_factor {f : {q : ℚ // Representable q}} (hf : 0 ≤ f.1)
    (hlarge : f.1 ≤ powInt 2 1018) :
    ∃ r, (F64.ofNat 1 - .finite f : F64) = .finite r ∧ r.1 ≤ 1 ∧ (f.1 ≤ 1 → 0 ≤ r.1) ∧
      (1 + powInt 2 (-52) ≤ f.1 → r.1 ≤ -powInt 2 (-52)) := by
  have hsub : (F64.ofNat 1 - .finite f : F64) = .ofRat (1 - f.1) := by
    rw [F64.one_eq, F64.finite_sub_finite]
  have hlow : -powInt 2 1018 ≤ 1 - f.1 := by linarith
  obtain ⟨r, hr, hround, _, hhi⟩ := F64.ofRat_between
    (representable_powInt (by norm_num) (by norm_num)).neg representable_one hlow (by linarith)
  refine ⟨r, hsub.trans hr, hhi, ?_, ?_⟩
  · intro h
    rw [hround]
    exact F64.le_roundRat representable_zero (by linarith)
  · intro h
    rw [hround]
    exact F64.roundRat_le (representable_powInt (by norm_num) (by norm_num)).neg (by linarith)

theorem exists_upper_factor {f : {q : ℚ // Representable q}} (hf : 0 ≤ f.1)
    (hlarge : f.1 ≤ powInt 2 1018) :
    ∃ r, (F64.ofNat 1 + .finite f : F64) = .finite r ∧ 1 ≤ r.1 := by
  have hadd : (F64.ofNat 1 + .finite f : F64) = .ofRat (1 + f.1) := by
    rw [F64.one_eq, F64.finite_add_finite]
  have hhigh : 1 + f.1 ≤ powInt 2 1019 := by
    have hroom : 1 + powInt 2 1018 ≤ powInt 2 1019 := by decide +kernel
    linarith
  obtain ⟨r, hr, _, hlo, _⟩ := F64.ofRat_between representable_one
    (representable_powInt (by norm_num) (by norm_num)) (by linarith) hhigh
  exact ⟨r, hadd.trans hr, hlo⟩

private theorem not_isSome_ofRat {q : ℚ} (hneg : q ≤ -powInt 2 (-82)) :
    (Duration.fromSecsF64 (.ofRat q)).isSome = false := by
  rw [Bool.eq_false_iff]
  intro hsome
  obtain ⟨r, hr, hpos, _⟩ := Duration.isSome_fromSecsF64_iff.mp hsome
  rw [F64.val_of_ofRat hr] at hpos
  have hle := F64.roundRat_le (representable_powInt (by norm_num) (by norm_num)).neg hneg
  have := F64.powInt_pos (-82)
  linarith

private theorem isSome_ofRat_of_le {q : ℚ} {a : {q : ℚ // Representable q}} (h0 : 0 ≤ q)
    (hle : q ≤ a.1) (ha : a.1 < 2 ^ 64) : (Duration.fromSecsF64 (.ofRat q)).isSome := by
  obtain ⟨r, hr, _, hr0, hra⟩ := F64.ofRat_between representable_zero a.2 h0 hle
  exact Duration.isSome_fromSecsF64_iff.mpr ⟨r, hr, hr0, hra.trans_lt ha⟩

private theorem isSome_ofRat_iff {q : ℚ} (h0 : 0 ≤ q) :
    (Duration.fromSecsF64 (.ofRat q)).isSome ↔ InClock (.ofRat q) := by
  rw [Duration.isSome_fromSecsF64_iff, InClock]
  refine exists_congr fun r => and_congr_right fun hr => and_iff_right ?_
  rw [F64.val_of_ofRat hr]
  exact F64.le_roundRat representable_zero h0

private theorem finite_of_upper {a : {q : ℚ // Representable q}} {pct : F64}
    (h : (Duration.fromSecsF64 (.finite a * (F64.ofNat 1 + pct / F64.ofNat 100))).isSome) :
    ∃ p, pct = .finite p := by
  obtain ⟨q, hq, _⟩ := Duration.isSome_fromSecsF64_iff.mp h
  rw [F64.one_eq] at hq
  cases pct with
  | nan => cases hq
  | inf s =>
    have hdiv : (.inf s / F64.ofNat 100 : F64) = .inf s := by
      rw [F64.ofNat_eq (by norm_num)]
      change F64.inf (xor s (decide (((100 : ℕ) : ℚ) < 0))) = _
      have hpos : decide (((100 : ℕ) : ℚ) < 0) = false := decide_eq_false (by norm_num)
      rw [hpos, Bool.xor_false]
    rw [hdiv] at hq
    change F64.mul (.finite a) (.inf s) = _ at hq
    rw [F64.mul] at hq
    split_ifs at hq
  | finite p => exact ⟨p, rfl⟩

private theorem isSome_lower_iff {a l : {q : ℚ // Representable q}} {inside zero : Prop}
    (ha0 : 0 ≤ a.1) (ha : a.1 < 2 ^ 64) (hl1 : l.1 ≤ 1) (hinside : inside → 0 ≤ l.1)
    (houtside : ¬ inside → l.1 ≤ -powInt 2 (-52)) (hzero : zero → a.1 = 0)
    (hpos : ¬ zero → powInt 2 (-30) ≤ a.1) :
    (Duration.fromSecsF64 (.ofRat (a.1 * l.1))).isSome ↔ inside ∨ zero := by
  constructor
  · intro hsome
    by_contra hnot
    obtain ⟨hout, hnonzero⟩ := not_or.mp hnot
    have hal : a.1 * l.1 ≤ -powInt 2 (-82) := by
      have hmul : powInt 2 (-30) * powInt 2 (-52) = powInt 2 (-82) := by decide +kernel
      have hbase := mul_le_mul_of_nonneg_right (hpos hnonzero) (F64.powInt_pos (-52)).le
      have hfactor := mul_le_mul_of_nonneg_left (houtside hout) ha0
      rw [mul_neg] at hfactor
      linarith
    rw [not_isSome_ofRat hal] at hsome
    cases hsome
  · intro hcase
    have hbounds : 0 ≤ a.1 * l.1 ∧ a.1 * l.1 ≤ a.1 := by
      rcases hcase with hin | hz
      · exact ⟨mul_nonneg ha0 (hinside hin), mul_le_of_le_one_right ha0 hl1⟩
      · rw [hzero hz, zero_mul]
        exact ⟨le_rfl, le_rfl⟩
    exact isSome_ofRat_of_le hbounds.1 hbounds.2 ha

private theorem scales_iff {d : Duration} {pct : F64} (hneg : ¬ pct < 0) :
    (Duration.fromSecsF64 (d.asSecsF64 * (F64.ofNat 1 - pct / F64.ofNat 100))).isSome ∧
        (Duration.fromSecsF64 (d.asSecsF64 * (F64.ofNat 1 + pct / F64.ofNat 100))).isSome ↔
      PercentInClock d pct := by
  obtain ⟨a, ha, ha0, _, hazero, hapos⟩ := d.exists_asSecsF64
  rw [PercentInClock, ha]
  by_cases hfinite : ∃ p, pct = .finite p
  · obtain ⟨p, rfl⟩ := hfinite
    obtain ⟨f, hf, hf0, hf1018, hfone, hfover⟩ := exists_fraction (F64.not_neg_iff.mp hneg)
    obtain ⟨l, hl, hl1, hl0, hlneg⟩ := exists_lower_factor hf0 hf1018
    obtain ⟨u, hu, hu1⟩ := exists_upper_factor hf0 hf1018
    rw [hf, hl, hu, F64.finite_mul_finite, F64.finite_mul_finite,
      isSome_ofRat_iff (mul_nonneg ha0 (zero_le_one.trans hu1)), and_congr_left_iff]
    rintro ⟨q, hq, hq64⟩
    have haq : a.1 ≤ q.1 := by
      rw [F64.val_of_ofRat hq]
      exact F64.le_roundRat a.2 (le_mul_of_one_le_right ha0 hu1)
    simp only [F64.finite.injEq, exists_eq_left']
    exact isSome_lower_iff ha0 (haq.trans_lt hq64) hl1 (fun hle => hl0 (hfone hle))
      (fun hover => hlneg (hfover (not_le.mp hover))) hazero (fun hpos => hapos (by omega))
  · constructor
    · rintro ⟨_, hsome⟩
      exact absurd (finite_of_upper hsome) hfinite
    · rintro ⟨⟨p, hp, _⟩, _⟩
      exact absurd ⟨p, hp⟩ hfinite

/-- The condition under which a range text is read without a panic: the texts of durations in it are
within the clock, as far as they are reached, and so is a percentage that is applied. -/
def RangeInClock (text : List Char) : Prop :=
  match splitOnce "..".toList (trim text) with
  | none => ∀ x ∈ durationSecs (trim text), InClock x
  | some (baseStr, rest) =>
    (∀ x ∈ durationSecs baseStr, InClock x) ∧
      match stripSuffix "%".toList rest with
      | none => ∀ d ∈ readDuration baseStr, ∀ x ∈ durationSecs rest, InClock x
      | some pctStr =>
        ∀ d ∈ readDuration baseStr, ∀ pct ∈ F64.parse pctStr,
          ¬ pct < 0 → (pct / F64.ofNat 100).feq 0 = false → PercentInClock d pct

private theorem not_panics_scale {d : Duration} {pct : F64} (hneg : ¬ pct < 0) :
    ¬ Panics (do
        let lo ← orPanic (Scalable.scale d (F64.ofNat 1 - pct / F64.ofNat 100))
        let hi ← orPanic (Scalable.scale d (F64.ofNat 1 + pct / F64.ofNat 100))
        return Range.minMax lo hi) ↔ PercentInClock d pct := by
  rw [← scales_iff hneg, not_panics_bind]
  change (¬ Panics (orPanic (fromSecsF64 _)) ∧ _) ↔ _
  rw [panics_convert, Bool.not_eq_false]
  refine and_congr_right fun hlo => ?_
  obtain ⟨lo, hlo⟩ := Option.isSome_iff_exists.mp hlo
  have hhi : ∀ f : Duration → Range Duration,
      ¬ Panics (do
          let hi ← orPanic (fromSecsF64 (d.asSecsF64 * (F64.ofNat 1 + pct / F64.ofNat 100)))
          return f hi) ↔
        (Duration.fromSecsF64 (d.asSecsF64 * (F64.ofNat 1 + pct / F64.ofNat 100))).isSome := by
    intro f
    rw [not_panics_bind, panics_convert, Bool.not_eq_false]
    exact and_iff_left fun hi _ => not_panics_pure (f hi)
  constructor
  · intro h
    exact (hhi _).mp (h lo (convert_ok.mpr hlo))
  · intro h lo' _
    exact (hhi _).mpr h

/-- Reading a duration range panics on no text within the clock, and on every other text. -/
theorem range_never_panics_iff (s : String) :
    (∀ p, parseDurationRange s ≠ .error (.panic p)) ↔ RangeInClock s.toList := by
  have hpanics : (∀ p, parseDurationRange s ≠ .error (.panic p)) ↔
      ¬ Panics (parseRangeStr parseDuration s.toList) := by
    rw [Panics, not_exists]
    rfl
  rw [hpanics, parseRangeStr, RangeInClock]
  dsimp only
  cases hsplit : splitOnce "..".toList (trim s.toList) with
  | none =>
    dsimp only
    rw [not_panics_bind, not_panics_parseDuration_iff]
    exact and_iff_left fun d _ => not_panics_pure _
  | some parts =>
    obtain ⟨baseStr, rest⟩ := parts
    dsimp only
    cases hsuffix : stripSuffix "%".toList rest with
    | none =>
      dsimp only
      rw [not_panics_bind, not_panics_parseDuration_iff]
      refine and_congr_right fun _ => ?_
      simp only [parseDuration_ok]
      refine forall₂_congr fun d _ => ?_
      rw [not_panics_bind, not_panics_parseDuration_iff]
      refine and_iff_left fun d' _ => ?_
      split_ifs
      · exact not_panics_fail _
      · exact not_panics_pure _
      · exact not_panics_pure _
    | some pctStr =>
      dsimp only
      rw [not_panics_bind, not_panics_parseDuration_iff]
      refine and_congr_right fun _ => ?_
      simp only [parseDuration_ok]
      refine forall₂_congr fun d _ => ?_
      rw [not_panics_bind, and_iff_right (not_panics_okOr _ _)]
      simp only [okOr_ok]
      refine forall₂_congr fun pct _ => ?_
      by_cases hneg : pct < 0
      · rw [if_pos hneg]
        exact iff_of_true (not_panics_fail _) fun hnot => absurd hneg hnot
      · rw [if_neg hneg]
        cases hzero : (pct / F64.ofNat 100).feq 0 with
        | true => simp
        | false => simpa [hneg] using not_panics_scale hneg

/-- A NaN passes the sign check. -/
theorem nan_seconds_panic :
    ¬ ∀ s : String, ∀ p, parseDurationRange s ≠ .error (.panic p) := by
  intro h
  exact h "nans" .invalidDuration (by decide +kernel)

end Mockinx
