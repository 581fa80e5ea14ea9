import Mockinx.Lib.F64Bounds

/-!
Interpolation between two floats stays between them. The rounded difference of the ends may be
larger than the exact one, but scaled by anything that a uniform draw below one can be, it is not.
-/

set_option autoImplicit false
set_option relaxedAutoImplicit false

namespace Mockinx.Lib

open F64

private theorem Representable.multiple_min {a : ℚ} (ha : Representable a) :
    ∃ n : ℤ, a = n * powInt 2 (-1074) := by
  rcases ha.multiple_or_small (-1074) with h | ⟨_, h⟩
  · exact h
  · exact absurd h (lt_irrefl _)

namespace F64

private theorem roundEven_intCast (n : ℤ) : roundEven (n : ℚ) = n :=
  le_antisymm (roundEven_le le_rfl) (le_roundEven le_rfl)

private theorem roundEven_neg (q : ℚ) : roundEven (-q) = -roundEven q := by
  have hlo := Int.floor_le q
  have hhi := Int.lt_floor_add_one q
  rcases eq_or_lt_of_le hlo with heq | hlt
  · rw [← heq, ← Int.cast_neg, roundEven_intCast, roundEven_intCast]
  · have hneg : ⌊-q⌋ = -⌊q⌋ - 1 := by
      rw [Int.floor_eq_iff]
      push_cast
      constructor <;> linarith
    unfold roundEven
    rw [hneg]
    push_cast
    split_ifs <;> first | omega | (exfalso; linarith)

private theorem quantum_neg (q : ℚ) : quantum (-q) = quantum q := by
  simp [quantum, ilog2]

private theorem roundRat_neg (q : ℚ) : roundRat (-q) = -roundRat q := by
  rw [roundRat, roundRat, quantum_neg, neg_div, roundEven_neg]
  push_cast
  ring

private theorem quantum_mono {a b : ℚ} (ha : 0 < a) (h : a ≤ b) : quantum a ≤ quantum b := by
  have hb : 0 < b := ha.trans_le h
  have hloga := (ilog2_spec ha.ne').1
  have hlogb := (ilog2_spec hb.ne').2
  rw [abs_of_pos ha] at hloga
  rw [abs_of_pos hb] at hlogb
  have hlog : ilog2 a < ilog2 b + 1 := powInt_lt_powInt.mp (by linarith)
  rw [quantum, quantum]
  omega

private theorem of_lt_roundRat {d : ℚ} (hd : 0 ≤ d) (hmultiple : ∃ n : ℤ, d = n * powInt 2 (-1074))
    (hlt : d < roundRat d) :
    ∃ n : ℤ, 2 ^ 52 < n ∧ roundRat d = n * powInt 2 (quantum d) := by
  have hne : d ≠ 0 := by
    rintro rfl
    simp at hlt
  have hpos := powInt_pos (quantum d)
  have hquantum : -1074 < quantum d := by
    by_contra hnot
    have hmin : quantum d = -1074 := le_antisymm (not_lt.mp hnot) (le_max_right _ _)
    obtain ⟨n, hn⟩ := hmultiple
    rw [← hmin] at hn
    have hle : roundRat d ≤ n * powInt 2 (quantum d) := roundRat_le_of_multiple hn.le
    linarith
  have hlog : 52 + quantum d = ilog2 d := by
    rw [quantum] at hquantum ⊢
    omega
  have hlarge : ((2 ^ 52 : ℤ) : ℚ) * powInt 2 (quantum d) ≤ d := by
    have hspec := (ilog2_spec hne).1
    rw [abs_of_nonneg hd, ← hlog] at hspec
    exact (powInt_shift 52 (quantum d)).symm.le.trans hspec
  refine ⟨roundEven (d / powInt 2 (quantum d)), ?_, rfl⟩
  rw [roundRat] at hlt
  have hover := lt_of_mul_lt_mul_right (hlarge.trans_lt hlt) hpos.le
  exact_mod_cast hover

private theorem roundRat_shrink_le {d t : ℚ} (hd : 0 ≤ d) (hmax : d ≤ powInt 2 1000)
    (hmultiple : ∃ n : ℤ, d = n * powInt 2 (-1074)) (ht0 : 0 ≤ t) (ht : t ≤ 1 - powInt 2 (-53)) :
    0 ≤ roundRat (roundRat d * t) ∧ roundRat (roundRat d * t) ≤ d := by
  obtain ⟨D, _, hD, hD0, hDmax⟩ := ofRat_between representable_zero
    (representable_powInt (by norm_num) (by norm_num)) hd hmax
  have ht1 : t ≤ 1 := ht.trans (by linarith [powInt_pos (-53)])
  have hscaled0 : 0 ≤ roundRat d * t := by
    rw [← hD]
    exact mul_nonneg hD0 ht0
  have hscaled1 : roundRat d * t ≤ roundRat d := by
    rw [← hD]
    exact mul_le_of_le_one_right hD0 ht1
  have hr0 := le_roundRat representable_zero hscaled0
  refine ⟨hr0, ?_⟩
  rcases le_or_gt (roundRat d) d with hdown | hup
  · exact (roundRat_le (hD ▸ D.2) hscaled1).trans hdown
  · obtain ⟨n, hn, hvalue⟩ := of_lt_roundRat hd hmultiple hup
    have hn' : (2 ^ 52 : ℚ) < n := by exact_mod_cast hn
    have hhalf : powInt 2 (quantum d) = 2 * powInt 2 (quantum d - 1) := by
      have hshift := powInt_shift 1 (quantum d - 1)
      rw [show ((1 : ℕ) : ℤ) + (quantum d - 1) = quantum d by omega] at hshift
      simpa using hshift
    have hhalfpos := powInt_pos (quantum d - 1)
    -- the rounding up was by at most half of the last digit, and the scaling takes off more
    have hclose := (abs_le.mp (abs_roundRat_sub_le d)).2
    have hgap : roundRat d * t < roundRat d - powInt 2 (quantum d - 1) := by
      have h53 : powInt 2 (-53) * 2 ^ 53 = 1 := by decide +kernel
      have htake : powInt 2 (quantum d - 1) < roundRat d * powInt 2 (-53) := by
        have hmul : (2 ^ 53 : ℚ) * powInt 2 (quantum d - 1) < roundRat d := by
          rw [hvalue, hhalf]
          nlinarith
        have hpos53 := powInt_pos (-53)
        nlinarith
      have hcut : roundRat d * t ≤ roundRat d * (1 - powInt 2 (-53)) :=
        mul_le_mul_of_nonneg_left ht (hD ▸ hD0)
      linarith
    rcases eq_or_lt_of_le hscaled0 with hzero | hpos
    · rw [← hzero, roundRat_zero]
      exact hd
    · have hquantum : quantum (roundRat d * t) ≤ quantum d := quantum_mono hpos (by linarith)
      have herror := (abs_le.mp (abs_roundRat_sub_le (roundRat d * t))).2
      have hstep : powInt 2 (quantum (roundRat d * t) - 1) ≤ powInt 2 (quantum d - 1) :=
        powInt_le_powInt.mpr (by omega)
      obtain ⟨R, _, hR, _, _⟩ := ofRat_between representable_zero
        (representable_powInt (show (-1074 : ℤ) ≤ 1000 by norm_num) (by norm_num)) hscaled0
        (hscaled1.trans (hD ▸ hDmax))
      have hbelow : R.1 < n * powInt 2 (quantum d) := by
        rw [hR, ← hvalue]
        linarith
      have hpred := R.2.le_pred hn hbelow
      rw [hR, sub_mul, ← hvalue, one_mul, hhalf] at hpred
      linarith

private theorem roundRat_shrink_between {d t : ℚ} (hmax : |d| ≤ powInt 2 1000)
    (hmultiple : ∃ n : ℤ, d = n * powInt 2 (-1074)) (ht0 : 0 ≤ t) (ht : t ≤ 1 - powInt 2 (-53)) :
    min d 0 ≤ roundRat (roundRat d * t) ∧ roundRat (roundRat d * t) ≤ max d 0 := by
  rcases le_or_gt 0 d with hd | hd
  · rw [abs_of_nonneg hd] at hmax
    obtain ⟨hlo, hhi⟩ := roundRat_shrink_le hd hmax hmultiple ht0 ht
    exact ⟨(min_le_right _ _).trans hlo, hhi.trans (le_max_left _ _)⟩
  · rw [abs_of_neg hd] at hmax
    have hmultiple' : ∃ n : ℤ, -d = n * powInt 2 (-1074) := by
      obtain ⟨n, hn⟩ := hmultiple
      exact ⟨-n, by rw [hn]; push_cast; ring⟩
    obtain ⟨hlo, hhi⟩ := roundRat_shrink_le (neg_nonneg.mpr hd.le) hmax hmultiple' ht0 ht
    rw [roundRat_neg, neg_mul, roundRat_neg] at hlo hhi
    constructor
    · exact (min_le_left _ _).trans (neg_le_neg_iff.mp hhi)
    · exact (neg_nonneg.mp hlo).trans (le_max_right _ _)

theorem exists_lerp {x y t : {q : ℚ // Representable q}} (hx0 : 0 ≤ x.1) (hy0 : 0 ≤ y.1)
    (hx : x.1 ≤ powInt 2 1000) (hy : y.1 ≤ powInt 2 1000) (ht0 : 0 ≤ t.1)
    (ht : t.1 ≤ 1 - powInt 2 (-53)) :
    ∃ r, (.finite x + (.finite y - .finite x) * .finite t : F64) = .finite r ∧
      min x.1 y.1 ≤ r.1 ∧ r.1 ≤ max x.1 y.1 := by
  have habs : |y.1 - x.1| ≤ powInt 2 1000 := by
    rw [abs_le]
    constructor <;> linarith
  have hmultiple : ∃ n : ℤ, y.1 - x.1 = n * powInt 2 (-1074) := by
    obtain ⟨m, hm⟩ := x.2.multiple_min
    obtain ⟨n, hn⟩ := y.2.multiple_min
    refine ⟨n - m, ?_⟩
    rw [hm, hn]
    push_cast
    ring
  have hbound : Representable (powInt 2 1000) := representable_powInt (by norm_num) (by norm_num)
  obtain ⟨hdlo, hdhi⟩ := abs_le.mp habs
  obtain ⟨D, hD, hDround, hDlo, hDhi⟩ := ofRat_between hbound.neg hbound hdlo hdhi
  obtain ⟨hlo, hhi⟩ := roundRat_shrink_between habs hmultiple ht0 ht
  rw [← hDround] at hlo hhi
  have hscaled : |D.1 * t.1| ≤ powInt 2 1000 := by
    have h1 : t.1 ≤ 1 := ht.trans (by linarith [powInt_pos (-53)])
    rw [abs_mul, abs_of_nonneg ht0]
    exact (mul_le_of_le_one_right (abs_nonneg _) h1).trans (abs_le.mpr ⟨hDlo, hDhi⟩)
  obtain ⟨hElo, hEhi⟩ := abs_le.mp hscaled
  obtain ⟨E, hE, hEround, _, _⟩ := ofRat_between hbound.neg hbound hElo hEhi
  rw [← hEround] at hlo hhi
  have hsumlo : min x.1 y.1 ≤ x.1 + E.1 := by
    have hshift : x.1 + min (y.1 - x.1) 0 = min x.1 y.1 := by
      rw [← min_add_add_left, add_sub_cancel, add_zero, min_comm]
    linarith
  have hsumhi : x.1 + E.1 ≤ max x.1 y.1 := by
    have hshift : x.1 + max (y.1 - x.1) 0 = max x.1 y.1 := by
      rw [← max_add_add_left, add_sub_cancel, add_zero, max_comm]
    linarith
  have hmin : Representable (min x.1 y.1) := by
    rcases min_choice x.1 y.1 with h | h
    · rw [h]
      exact x.2
    · rw [h]
      exact y.2
  have hmaxR : Representable (max x.1 y.1) := by
    rcases max_choice x.1 y.1 with h | h
    · rw [h]
      exact x.2
    · rw [h]
      exact y.2
  obtain ⟨r, hr, _, hrlo, hrhi⟩ := ofRat_between hmin hmaxR hsumlo hsumhi
  refine ⟨r, ?_, hrlo, hrhi⟩
  rw [finite_sub_finite, hD, finite_mul_finite, hE, finite_add_finite, hr]

end F64

end Mockinx.Lib
