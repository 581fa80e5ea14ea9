import Mockinx.Lib.Time

/-!
Bounds of rounded results from bounds of the exact ones: rounding does not cross a value of the
format. Exact sums of floats beside the rounded ones, and when float seconds are a duration.
-/

set_option autoImplicit false
set_option relaxedAutoImplicit false

namespace Mockinx.Lib

open F64

theorem representable_zero : Representable 0 :=
  ⟨0, 0, by norm_num, by norm_num, by norm_num, by simp⟩

theorem representable_natCast {n : ℕ} (h : n < 2 ^ 53) : Representable n :=
  ⟨n, 0, by rw [Nat.abs_cast]; exact_mod_cast h, by norm_num, by norm_num, by simp [powInt]⟩

theorem representable_one : Representable 1 :=
  ⟨1, 0, by norm_num, by norm_num, by norm_num, by simp [powInt]⟩

theorem representable_powInt {k : ℤ} (hlo : -1074 ≤ k) (hhi : k ≤ 1023) :
    Representable (powInt 2 k) := by
  rcases le_or_gt k 971 with hk | hk
  · exact ⟨1, k, by norm_num, hlo, hk, by simp⟩
  · refine ⟨2 ^ 52, k - 52, by norm_num, by omega, by omega, ?_⟩
    have hshift := powInt_shift 52 (k - 52)
    rwa [show ((52 : ℕ) : ℤ) + (k - 52) = k by omega] at hshift

theorem Representable.neg {q : ℚ} (h : Representable q) : Representable (-q) := by
  obtain ⟨m, e, hm, hlo, hhi, rfl⟩ := h
  exact ⟨-m, e, by rwa [abs_neg], hlo, hhi, by push_cast; ring⟩

theorem Representable.abs_lt {q : ℚ} (h : Representable q) : |q| < powInt 2 1024 := by
  obtain ⟨m, e, hm, hlo, hhi, rfl⟩ := h
  have hm' : (|m| : ℚ) < ((2 ^ 53 : ℤ) : ℚ) := by exact_mod_cast hm
  rw [abs_mul, abs_of_pos (powInt_pos e)]
  calc (|m| : ℚ) * powInt 2 e < ((2 ^ 53 : ℤ) : ℚ) * powInt 2 e :=
        mul_lt_mul_of_pos_right hm' (powInt_pos e)
    _ = powInt 2 (53 + e) := (powInt_shift 53 e).symm
    _ ≤ powInt 2 1024 := powInt_le_powInt.mpr (by omega)

theorem Representable.multiple_or_small {a : ℚ} (ha : Representable a) (j : ℤ) :
    (∃ n : ℤ, a = n * powInt 2 j) ∨ |a| < powInt 2 (52 + j) ∧ -1074 < j := by
  obtain ⟨m, k, hm, hlo, hhi, rfl⟩ := ha
  rcases le_or_gt j k with hk | hk
  · left
    obtain ⟨n, hn⟩ := Int.eq_ofNat_of_zero_le (sub_nonneg.mpr hk)
    refine ⟨m * 2 ^ n, ?_⟩
    have hsplit : k = n + j := by
      change k - j = (n : ℤ) at hn
      omega
    rw [hsplit, powInt_shift n]
    push_cast
    ring
  · right
    have hm' : (|m| : ℚ) < ((2 ^ 53 : ℤ) : ℚ) := by exact_mod_cast hm
    refine ⟨?_, by omega⟩
    rw [abs_mul, abs_of_pos (powInt_pos k)]
    calc (|m| : ℚ) * powInt 2 k < ((2 ^ 53 : ℤ) : ℚ) * powInt 2 k :=
          mul_lt_mul_of_pos_right hm' (powInt_pos k)
      _ = powInt 2 (53 + k) := (powInt_shift 53 k).symm
      _ ≤ powInt 2 (52 + j) := powInt_le_powInt.mpr (by omega)

private theorem Representable.multiple_or_lt {a q : ℚ} (ha : Representable a) (hq : q ≠ 0) :
    (∃ n : ℤ, a = n * powInt 2 (quantum q)) ∨
      |a| < powInt 2 (52 + quantum q) ∧ powInt 2 (52 + quantum q) ≤ |q| := by
  refine (ha.multiple_or_small (quantum q)).imp_right fun ⟨hsmall, hj⟩ => ⟨hsmall, ?_⟩
  have hquantum : 52 + quantum q = ilog2 q := by
    rw [quantum] at hj ⊢
    omega
  rw [hquantum]
  exact (ilog2_spec hq).1

theorem Representable.succ_le {a : ℚ} (ha : Representable a) {n j : ℤ} (hn : 2 ^ 52 ≤ n)
    (hlt : n * powInt 2 j < a) : (n + 1) * powInt 2 j ≤ a := by
  have hpos := powInt_pos j
  rcases ha.multiple_or_small j with ⟨m, rfl⟩ | ⟨hsmall, _⟩
  · have hnm : n + 1 ≤ m := by
      have := lt_of_mul_lt_mul_right hlt hpos.le
      exact Int.add_one_le_of_lt (by exact_mod_cast this)
    exact mul_le_mul_of_nonneg_right (by exact_mod_cast hnm) hpos.le
  · have hle : ((2 ^ 52 : ℤ) : ℚ) * powInt 2 j ≤ n * powInt 2 j :=
      mul_le_mul_of_nonneg_right (by exact_mod_cast hn) hpos.le
    have hshift := powInt_shift 52 j
    have := le_abs_self a
    push_cast at hle hshift
    linarith

theorem Representable.le_pred {a : ℚ} (ha : Representable a) {n j : ℤ} (hn : 2 ^ 52 < n)
    (hlt : a < n * powInt 2 j) : a ≤ (n - 1) * powInt 2 j := by
  have hpos := powInt_pos j
  rcases ha.multiple_or_small j with ⟨m, rfl⟩ | ⟨hsmall, _⟩
  · have hmn : m ≤ n - 1 := by
      have := lt_of_mul_lt_mul_right hlt hpos.le
      exact Int.le_sub_one_of_lt (by exact_mod_cast this)
    exact mul_le_mul_of_nonneg_right (by exact_mod_cast hmn) hpos.le
  · have hle : ((2 ^ 52 : ℤ) : ℚ) * powInt 2 j ≤ ((n - 1 : ℤ) : ℚ) * powInt 2 j :=
      mul_le_mul_of_nonneg_right (by exact_mod_cast Int.le_sub_one_of_lt hn) hpos.le
    have hshift := powInt_shift 52 j
    have := le_abs_self a
    push_cast at hle hshift
    linarith

namespace F64

theorem roundEven_le {q : ℚ} {n : ℤ} (h : q ≤ n) : roundEven q ≤ n := by
  have hclose := (abs_le.mp (roundEven_close q)).2
  have hlt : (roundEven q : ℚ) < ((n + 1 : ℤ) : ℚ) := by
    push_cast
    linarith
  exact Int.lt_add_one_iff.mp (Int.cast_lt.mp hlt)

theorem le_roundEven {q : ℚ} {n : ℤ} (h : (n : ℚ) ≤ q) : n ≤ roundEven q := by
  have hclose := (abs_le.mp (roundEven_close q)).1
  have hlt : ((n - 1 : ℤ) : ℚ) < (roundEven q : ℚ) := by
    push_cast
    linarith
  have := Int.cast_lt.mp hlt
  omega

@[simp] theorem roundRat_zero : roundRat 0 = 0 := by
  simp [roundRat, roundEven]

theorem roundRat_le_of_multiple {q : ℚ} {n : ℤ} (h : q ≤ n * powInt 2 (quantum q)) :
    roundRat q ≤ n * powInt 2 (quantum q) := by
  have hpos := powInt_pos (quantum q)
  have hle : roundEven (q / powInt 2 (quantum q)) ≤ n := roundEven_le (by rwa [div_le_iff₀ hpos])
  exact mul_le_mul_of_nonneg_right (by exact_mod_cast hle) hpos.le

private theorem le_roundRat_of_multiple {q : ℚ} {n : ℤ} (h : n * powInt 2 (quantum q) ≤ q) :
    n * powInt 2 (quantum q) ≤ roundRat q := by
  have hpos := powInt_pos (quantum q)
  have hle : n ≤ roundEven (q / powInt 2 (quantum q)) := le_roundEven (by rwa [le_div_iff₀ hpos])
  exact mul_le_mul_of_nonneg_right (by exact_mod_cast hle) hpos.le

theorem roundRat_le {q a : ℚ} (ha : Representable a) (h : q ≤ a) : roundRat q ≤ a := by
  by_cases hq : q = 0
  · subst hq
    simpa using h
  rcases ha.multiple_or_lt hq with ⟨n, rfl⟩ | ⟨hsmall, hlarge⟩
  · exact roundRat_le_of_multiple h
  · -- `a` is closer to zero than `q`, which then is negative
    have hneg : q < 0 := by
      by_contra hnot
      rw [abs_of_nonneg (not_lt.mp hnot)] at hlarge
      have := le_abs_self a
      linarith
    have hmultiple : q ≤ ((-(2 ^ 52) : ℤ) : ℚ) * powInt 2 (quantum q) := by
      have hshift := powInt_shift 52 (quantum q)
      rw [abs_of_neg hneg] at hlarge
      push_cast at hshift ⊢
      linarith
    have hround := roundRat_le_of_multiple hmultiple
    have hshift := powInt_shift 52 (quantum q)
    have := neg_abs_le a
    push_cast at hround hshift
    linarith

theorem le_roundRat {q a : ℚ} (ha : Representable a) (h : a ≤ q) : a ≤ roundRat q := by
  by_cases hq : q = 0
  · subst hq
    simpa using h
  rcases ha.multiple_or_lt hq with ⟨n, rfl⟩ | ⟨hsmall, hlarge⟩
  · exact le_roundRat_of_multiple h
  · have hpos : 0 < q := by
      by_contra hnot
      rw [abs_of_nonpos (not_lt.mp hnot)] at hlarge
      have := neg_abs_le a
      linarith
    have hmultiple : ((2 ^ 52 : ℤ) : ℚ) * powInt 2 (quantum q) ≤ q := by
      rw [abs_of_pos hpos] at hlarge
      exact (powInt_shift 52 (quantum q)).symm.le.trans hlarge
    have hround := le_roundRat_of_multiple hmultiple
    have hshift := powInt_shift 52 (quantum q)
    have := le_abs_self a
    push_cast at hround hshift
    linarith

theorem ofRat_between {lo q hi : ℚ} (hlo : Representable lo) (hhi : Representable hi)
    (hloq : lo ≤ q) (hqhi : q ≤ hi) :
    ∃ r, ofRat q = .finite r ∧ r.1 = roundRat q ∧ lo ≤ r.1 ∧ r.1 ≤ hi := by
  have hle := le_roundRat hlo hloq
  have hge := roundRat_le hhi hqhi
  have habs : |roundRat q| < powInt 2 1024 := by
    have h1 := (abs_lt.mp hlo.abs_lt).1
    have h2 := (abs_lt.mp hhi.abs_lt).2
    rw [abs_lt]
    constructor <;> linarith
  exact ⟨⟨roundRat q, representable_roundRat habs⟩, dif_pos habs, rfl, hle, hge⟩

theorem val_of_ofRat {q : ℚ} {r : {q : ℚ // Representable q}} (h : ofRat q = .finite r) :
    r.1 = roundRat q := by
  rw [ofRat] at h
  split_ifs at h
  obtain rfl := F64.finite.inj h
  rfl

theorem ofRat_eq (q : {q : ℚ // Representable q}) : ofRat q.1 = .finite q := by
  obtain ⟨r, hr, _, hle, hge⟩ := ofRat_between q.2 q.2 le_rfl le_rfl
  rw [hr, Subtype.ext (le_antisymm hge hle)]

theorem ofNat_eq {n : ℕ} (h : n < 2 ^ 53) : ofNat n = .finite ⟨n, representable_natCast h⟩ :=
  ofRat_eq ⟨n, representable_natCast h⟩

theorem zero_eq : (0 : F64) = .finite ⟨0, representable_zero⟩ := by
  have hzero : ofRat 0 = .finite ⟨0, representable_zero⟩ := ofRat_eq ⟨0, representable_zero⟩
  rw [← hzero, ← Nat.cast_zero]
  rfl

theorem one_eq : ofNat 1 = .finite ⟨1, representable_one⟩ := by
  have hone : ofRat 1 = .finite ⟨1, representable_one⟩ := ofRat_eq ⟨1, representable_one⟩
  rw [← hone, ofNat, Nat.cast_one]

theorem finite_lt_finite {a b : {q : ℚ // Representable q}} :
    (.finite a : F64) < .finite b ↔ a.1 < b.1 :=
  decide_eq_true_iff

theorem not_neg_iff {q : {q : ℚ // Representable q}} : ¬ (.finite q : F64) < 0 ↔ 0 ≤ q.1 := by
  rw [zero_eq, finite_lt_finite, not_lt]

theorem neg_finite (q : {q : ℚ // Representable q}) :
    neg (.finite q) = .finite ⟨-q.1, q.2.neg⟩ :=
  ofRat_eq ⟨-q.1, q.2.neg⟩

theorem finite_add_finite (a b : {q : ℚ // Representable q}) :
    (.finite a + .finite b : F64) = ofRat (a.1 + b.1) := by
  change add (.finite a) (.finite b) = _
  rw [add]

theorem finite_sub_finite (a b : {q : ℚ // Representable q}) :
    (.finite a - .finite b : F64) = ofRat (a.1 - b.1) := by
  change add (.finite a) (neg (.finite b)) = _
  rw [neg_finite, sub_eq_add_neg]
  rfl

theorem finite_mul_finite (a b : {q : ℚ // Representable q}) :
    (.finite a * .finite b : F64) = ofRat (a.1 * b.1) := by
  change mul (.finite a) (.finite b) = _
  rw [mul]

theorem finite_div_finite (a : {q : ℚ // Representable q}) {b : {q : ℚ // Representable q}}
    (hb : b.1 ≠ 0) : (.finite a / .finite b : F64) = ofRat (a.1 / b.1) :=
  if_neg hb

theorem quantum_le {q : ℚ} {k : ℤ} (hk : 0 ≤ k) (h : |q| < powInt 2 k) :
    quantum q ≤ k - 53 := by
  have hlog : ilog2 q < k := by
    by_cases hq : q = 0
    · subst hq
      have hzero : ilog2 0 = -1 := by decide
      omega
    · exact powInt_lt_powInt.mp ((ilog2_spec hq).1.trans_lt h)
  rw [quantum]
  omega

theorem abs_roundRat_sub_le (q : ℚ) : |roundRat q - q| ≤ powInt 2 (quantum q - 1) := by
  have hpos := powInt_pos (quantum q)
  have hhalf : powInt 2 (quantum q) = 2 * powInt 2 (quantum q - 1) := by
    have hshift := powInt_shift 1 (quantum q - 1)
    rw [show ((1 : ℕ) : ℤ) + (quantum q - 1) = quantum q by omega] at hshift
    simpa using hshift
  have hclose := roundEven_close (q / powInt 2 (quantum q))
  calc |roundRat q - q| =
        |(roundEven (q / powInt 2 (quantum q)) - q / powInt 2 (quantum q)) *
          powInt 2 (quantum q)| := by
        rw [roundRat, sub_mul, div_mul_cancel₀ q hpos.ne']
    _ ≤ 1 / 2 * powInt 2 (quantum q) := by
        rw [abs_mul, abs_of_pos hpos]
        exact mul_le_mul_of_nonneg_right hclose hpos.le
    _ = powInt 2 (quantum q - 1) := by
        rw [hhalf]
        ring

def value : F64 → Option ℚ
  | .finite q => some q.1
  | _ => none

/-- A sum of floats that is not rounded. -/
inductive Exact where
  | nan
  | inf (neg : Bool)
  | finite (q : ℚ)
  deriving DecidableEq

namespace Exact

def add : Exact → F64 → Exact
  | .nan, _ => .nan
  | _, .nan => .nan
  | .inf s, .inf t => if s = t then .inf s else .nan
  | .inf s, .finite _ => .inf s
  | .finite _, .inf t => .inf t
  | .finite a, .finite b => .finite (a + b.1)

def exceeds (bound : ℚ) : Exact → Bool
  | .nan => false
  | .inf s => !s
  | .finite q => decide (bound < q)

def round : Exact → F64
  | .nan => .nan
  | .inf s => .inf s
  | .finite q => ofRat q

end Exact

end F64

end Mockinx.Lib
