import Mockinx.Lib.F64Bounds

/-!
Which float seconds are a duration, and how large the float seconds of a duration are.
-/

set_option autoImplicit false
set_option relaxedAutoImplicit false

namespace Mockinx.Lib

open F64

namespace Duration

private theorem nanos_le_of_lt {q : {q : ℚ // Representable q}} (h : q.1 < 2 ^ 64) :
    q.1 * 10 ^ 9 ≤ (((2 ^ 64 - 2 ^ 11) * 10 ^ 9 : ℤ) : ℚ) := by
  have h11 : powInt 2 11 = 2 ^ 11 := by decide +kernel
  have hsplit : (2 : ℚ) ^ 64 = ((2 ^ 53 : ℤ) : ℚ) * powInt 2 11 := by decide +kernel
  rw [hsplit] at h
  have hpred := q.2.le_pred (by norm_num) h
  rw [h11] at hpred
  push_cast at hpred ⊢
  linarith

theorem isSome_fromSecsF64_iff {x : F64} :
    (fromSecsF64 x).isSome ↔ ∃ q, x = .finite q ∧ 0 ≤ q.1 ∧ q.1 < 2 ^ 64 := by
  cases x with
  | nan => simp [fromSecsF64]
  | inf s => simp [fromSecsF64]
  | finite q =>
    rw [fromSecsF64]
    simp only [F64.finite.injEq, exists_eq_left']
    split_ifs with hneg hrange
    · simp only [Option.isSome_none, Bool.false_eq_true, false_iff, not_and, not_lt]
      intro h
      linarith
    · simp only [Option.isSome_some, true_iff]
      refine ⟨not_lt.mp hneg, ?_⟩
      by_contra hnot
      rw [not_lt] at hnot
      have hle : ((2 ^ 64 * 10 ^ 9 : ℤ) : ℚ) ≤ q.1 * 10 ^ 9 := by
        push_cast
        linarith
      have := le_roundEven hle
      omega
    · simp only [Option.isSome_none, Bool.false_eq_true, false_iff, not_and]
      intro _ hlt
      have := roundEven_le (nanos_le_of_lt hlt)
      omega

private theorem exists_ofNat_seconds {n : ℕ} (h : n < 2 ^ 64) :
    ∃ s, F64.ofNat n = .finite s ∧ 0 ≤ s.1 ∧ s.1 ≤ powInt 2 64 ∧ (n = 0 → s.1 = 0) ∧
      (0 < n → powInt 2 (-30) ≤ s.1) := by
  have h64 : powInt 2 64 = 2 ^ 64 := by decide +kernel
  have hle : (n : ℚ) ≤ powInt 2 64 := by
    rw [h64]
    exact_mod_cast h.le
  obtain ⟨s, hs, hround, hlo, hhi⟩ := ofRat_between representable_zero
    (representable_powInt (by norm_num) (by norm_num)) (Nat.cast_nonneg n) hle
  refine ⟨s, hs, hlo, hhi, ?_, ?_⟩
  · rintro rfl
    rw [hround, Nat.cast_zero, roundRat_zero]
  · intro hpos
    rw [hround]
    refine le_roundRat (representable_powInt (by norm_num) (by norm_num)) ?_
    calc powInt 2 (-30) ≤ 1 := by decide +kernel
      _ ≤ (n : ℚ) := by exact_mod_cast hpos

theorem exists_ofNat_fraction {n : ℕ} (h : n < 10 ^ 9) :
    ∃ f, F64.ofNat n / F64.ofNat (10 ^ 9) = .finite f ∧ 0 ≤ f.1 ∧ f.1 ≤ 1 ∧
      (n = 0 → f.1 = 0) ∧ (0 < n → powInt 2 (-30) ≤ f.1) := by
  have hdiv : F64.ofNat n / F64.ofNat (10 ^ 9) = ofRat ((n : ℚ) / (10 ^ 9 : ℕ)) := by
    rw [ofNat_eq (by omega), ofNat_eq (by norm_num), finite_div_finite _ (by norm_num)]
  have hle : (n : ℚ) / (10 ^ 9 : ℕ) ≤ 1 := by
    rw [div_le_one (by norm_num)]
    exact_mod_cast h.le
  obtain ⟨f, hf, hround, hlo, hhi⟩ := ofRat_between representable_zero representable_one
    (by positivity) hle
  refine ⟨f, hdiv.trans hf, hlo, hhi, ?_, ?_⟩
  · rintro rfl
    rw [hround, Nat.cast_zero, zero_div, roundRat_zero]
  · intro hpos
    rw [hround]
    refine le_roundRat (representable_powInt (by norm_num) (by norm_num)) ?_
    rw [le_div_iff₀ (by norm_num)]
    calc powInt 2 (-30) * (10 ^ 9 : ℕ) ≤ 1 := by decide +kernel
      _ ≤ (n : ℚ) := by exact_mod_cast hpos

theorem exists_asSecsF64 (d : Duration) :
    ∃ a, d.asSecsF64 = .finite a ∧ 0 ≤ a.1 ∧ a.1 ≤ powInt 2 65 ∧ (d.nanos = 0 → a.1 = 0) ∧
      (0 < d.nanos → powInt 2 (-30) ≤ a.1) := by
  have hlt := d.lt
  obtain ⟨s, hs, hs0, hs64, hszero, hspos⟩ :=
    exists_ofNat_seconds (show d.nanos / 10 ^ 9 < 2 ^ 64 by omega)
  obtain ⟨f, hf, hf0, hf1, hfzero, hfpos⟩ :=
    exists_ofNat_fraction (Nat.mod_lt d.nanos (by norm_num : 0 < 10 ^ 9))
  have hadd : d.asSecsF64 = ofRat (s.1 + f.1) := by
    rw [asSecsF64, hs, hf, finite_add_finite]
  have hle : s.1 + f.1 ≤ powInt 2 65 := by
    have hsum : powInt 2 64 + 1 ≤ powInt 2 65 := by decide +kernel
    linarith
  obtain ⟨a, ha, hround, hlo, hhi⟩ := ofRat_between representable_zero
    (representable_powInt (by norm_num) (by norm_num)) (add_nonneg hs0 hf0) hle
  refine ⟨a, hadd.trans ha, hlo, hhi, ?_, ?_⟩
  · intro hzero
    rw [hround, hszero (by omega), hfzero (by omega), add_zero, roundRat_zero]
  · intro hpos
    rw [hround]
    refine le_roundRat (representable_powInt (by norm_num) (by norm_num)) ?_
    rcases Nat.eq_zero_or_pos (d.nanos / 10 ^ 9) with hwhole | hwhole
    · have := hfpos (by omega)
      linarith
    · have := hspos hwhole
      linarith

def maxFromSecs : ℕ := (2 ^ 64 - 2 ^ 11) * 10 ^ 9

private theorem representable_max_seconds : Representable (2 ^ 64 - 2 ^ 11) :=
  ⟨2 ^ 53 - 1, 11, by norm_num, by norm_num, by norm_num, by
    rw [powInt_eq_zpow]
    norm_num⟩

theorem nanos_le_of_fromSecsF64 {x : F64} {d : Duration} (h : fromSecsF64 x = some d) :
    d.nanos ≤ maxFromSecs := by
  obtain ⟨q, rfl, _, hlt⟩ := isSome_fromSecsF64_iff.mp (Option.isSome_of_eq_some h)
  have hround := roundEven_le (nanos_le_of_lt hlt)
  rw [fromSecsF64] at h
  dsimp only at h
  split_ifs at h
  obtain rfl := Option.some.inj h
  change (roundEven (q.1 * 10 ^ 9)).toNat ≤ maxFromSecs
  rw [maxFromSecs]
  omega

theorem exists_asSecsF64_lt {d : Duration} (h : d.nanos ≤ maxFromSecs) :
    ∃ a, d.asSecsF64 = .finite a ∧ 0 ≤ a.1 ∧ a.1 < 2 ^ 64 := by
  rw [maxFromSecs] at h
  have hwhole : d.nanos / 10 ^ 9 ≤ 2 ^ 64 - 2 ^ 11 := by omega
  have hwhole' : ((d.nanos / 10 ^ 9 : ℕ) : ℚ) ≤ 2 ^ 64 - 2 ^ 11 := by
    have hcast : ((d.nanos / 10 ^ 9 : ℕ) : ℚ) ≤ ((2 ^ 64 - 2 ^ 11 : ℕ) : ℚ) := by
      exact_mod_cast hwhole
    norm_num at hcast ⊢
    exact hcast
  obtain ⟨s, hs, _, hs0, hsmax⟩ := ofRat_between representable_zero representable_max_seconds
    (Nat.cast_nonneg (d.nanos / 10 ^ 9)) hwhole'
  obtain ⟨f, hf, hf0, hf1, _, _⟩ :=
    exists_ofNat_fraction (Nat.mod_lt d.nanos (by norm_num : 0 < 10 ^ 9))
  have hsum0 : 0 ≤ s.1 + f.1 := add_nonneg hs0 hf0
  have hadd : d.asSecsF64 = ofRat (s.1 + f.1) := by
    rw [asSecsF64, F64.ofNat, hs, hf, finite_add_finite]
  obtain ⟨a, ha, hround, ha0, _⟩ := ofRat_between representable_zero
    (representable_powInt (show (-1074 : ℤ) ≤ 64 by norm_num) (by norm_num)) hsum0 (by
      have h64 : powInt 2 64 = 2 ^ 64 := by decide +kernel
      rw [h64]
      linarith)
  refine ⟨a, hadd.trans ha, ha0, ?_⟩
  -- the sum is at most one above the largest float, and half of its last digit is `2 ^ 10`
  have hquantum : quantum (s.1 + f.1) ≤ 11 := quantum_le (k := 64) (by norm_num) (by
    have h64 : powInt 2 64 = 2 ^ 64 := by decide +kernel
    rw [abs_of_nonneg hsum0, h64]
    linarith)
  have hhalf : powInt 2 (quantum (s.1 + f.1) - 1) ≤ 2 ^ 10 :=
    calc powInt 2 (quantum (s.1 + f.1) - 1) ≤ powInt 2 10 := powInt_le_powInt.mpr (by omega)
      _ = 2 ^ 10 := by decide +kernel
  have hclose := (abs_le.mp (abs_roundRat_sub_le (s.1 + f.1))).2
  rw [hround]
  linarith

end Duration

end Mockinx.Lib
