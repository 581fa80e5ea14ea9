import Mockinx.Lib.F64Interp
import Mockinx.Lib.TimeBounds

/-!
Floats and whole numbers. The conversions to integers and to durations are monotone, and a 64-bit
integer that a float was converted to comes back from its own float.
-/

set_option autoImplicit false
set_option relaxedAutoImplicit false

namespace Mockinx.Lib

namespace F64

private theorem roundEven_mono {a b : ℚ} (h : a ≤ b) : roundEven a ≤ roundEven b := by
  rcases (Int.floor_mono h).lt_or_eq with hlt | heq
  · -- an integer lies between the two
    have hsucc : ((⌊a⌋ + 1 : ℤ) : ℚ) ≤ b := by
      have hle : ⌊a⌋ + 1 ≤ ⌊b⌋ := hlt
      calc ((⌊a⌋ + 1 : ℤ) : ℚ) ≤ (⌊b⌋ : ℤ) := by exact_mod_cast hle
        _ ≤ b := Int.floor_le b
    have hbelow : a ≤ ((⌊a⌋ + 1 : ℤ) : ℚ) := by
      push_cast
      exact (Int.lt_floor_add_one a).le
    exact (roundEven_le hbelow).trans (le_roundEven hsucc)
  · have hfrac : a - ⌊a⌋ ≤ b - ⌊b⌋ := by
      rw [heq]
      linarith
    rw [roundEven, roundEven, heq]
    rw [heq] at hfrac
    split_ifs <;> first | omega | linarith

private theorem roundEven_eq_of_abs_lt {q : ℚ} {n : ℤ} (h : |q - n| < 1 / 2) : roundEven q = n := by
  have hclose := abs_le.mp (roundEven_close q)
  have hnear := abs_lt.mp h
  have hlo : ((n - 1 : ℤ) : ℚ) < roundEven q := by
    push_cast
    linarith
  have hhi : (roundEven q : ℚ) < ((n + 1 : ℤ) : ℚ) := by
    push_cast
    linarith
  have := Int.cast_lt.mp hlo
  have := Int.cast_lt.mp hhi
  omega

private theorem toNat_toU64 (q : {q : ℚ // Representable q}) :
    (toU64 (.finite q)).toNat = min q.1.floor.toNat (2 ^ 64 - 1) := by
  have hlt : min q.1.floor.toNat (2 ^ 64 - 1) < 2 ^ 64 :=
    (min_le_right _ _).trans_lt (by norm_num)
  exact UInt64.toNat_ofNat_of_lt' hlt

def AtMost : F64 → F64 → Prop
  | .nan, _ => True
  | .inf true, _ => True
  | _, .inf false => True
  | .finite a, .finite b => a.1 ≤ b.1
  | _, _ => False

theorem ofRat_atMost {q : ℚ} {a : {q : ℚ // Representable q}} (h : q ≤ a.1) :
    AtMost (ofRat q) (.finite a) := by
  rcases le_or_gt 0 q with hq | hq
  · obtain ⟨r, hr, _, _, hle⟩ := ofRat_between representable_zero a.2 hq h
    rw [hr]
    exact hle
  · rw [ofRat]
    split_ifs with hrange
    · exact roundRat_le a.2 h
    · rw [decide_eq_true hq]
      trivial

theorem atMost_ofRat {q : ℚ} {a : {q : ℚ // Representable q}} (ha : 0 ≤ a.1) (h : a.1 ≤ q) :
    AtMost (.finite a) (ofRat q) := by
  rw [ofRat]
  split_ifs with hrange
  · exact le_roundRat a.2 h
  · rw [decide_eq_false (not_lt.mpr (ha.trans h))]
    trivial

theorem AtMost.trans {x y : F64} {a : {q : ℚ // Representable q}} (hx : AtMost x (.finite a))
    (hy : AtMost (.finite a) y) : AtMost x y := by
  cases x with
  | nan => trivial
  | inf s =>
    cases s with
    | true => trivial
    | false => exact hx.elim
  | finite p =>
    cases y with
    | nan => exact hy.elim
    | inf t =>
      cases t with
      | true => exact hy.elim
      | false => trivial
    | finite q => exact le_trans (α := ℚ) hx hy

theorem toU64_mono {x y : F64} (h : AtMost x y) : x.toU64.toNat ≤ y.toU64.toNat := by
  have hmax (z : F64) : z.toU64.toNat ≤ (toU64 (.inf false)).toNat := by
    change _ ≤ (UInt64.ofNat (2 ^ 64 - 1)).toNat
    exact Nat.le_sub_one_of_lt (UInt64.toNat_lt z.toU64)
  cases x with
  | nan => exact Nat.zero_le _
  | inf s =>
    cases s with
    | true => exact Nat.zero_le _
    | false =>
      cases y with
      | inf t =>
        cases t with
        | true => exact h.elim
        | false => exact le_rfl
      | nan | finite q => exact h.elim
  | finite a =>
    cases y with
    | nan => exact h.elim
    | inf t =>
      cases t with
      | true => exact h.elim
      | false => exact hmax _
    | finite b =>
      rw [toNat_toU64, toNat_toU64]
      exact min_le_min_right _ (Int.toNat_le_toNat (Int.floor_mono h))

private theorem exists_eq_intCast {q : ℚ} (hq : Representable q) (h : 2 ^ 53 ≤ q) :
    ∃ n : ℤ, q = n := by
  rcases hq.multiple_or_small 0 with ⟨n, hn⟩ | ⟨hsmall, _⟩
  · refine ⟨n, hn.trans ?_⟩
    have hone : powInt 2 0 = 1 := by norm_num [F64.powInt_eq_zpow]
    rw [hone, mul_one]
  · have h52 : powInt 2 (52 + 0) = 2 ^ 52 := by norm_num [F64.powInt_eq_zpow]
    have hle := le_abs_self q
    rw [h52] at hsmall
    linarith

private theorem toU64_ofNat {n : ℕ} (hn : Representable n) (hlt : n < 2 ^ 64) :
    (ofNat n).toU64.toNat = n := by
  have hfloat : ofNat n = .finite ⟨n, hn⟩ := ofRat_eq ⟨n, hn⟩
  rw [hfloat, toNat_toU64]
  have hfloor : (n : ℚ).floor = n := Int.floor_natCast (R := ℚ) n
  rw [hfloor, Int.toNat_natCast]
  omega

private theorem representable_floor {q : {q : ℚ // Representable q}}
    (h : q.1.floor.toNat < 2 ^ 64 - 1) :
    Representable (q.1.floor.toNat : ℕ) := by
  rcases lt_or_ge q.1.floor.toNat (2 ^ 53) with hsmall | hlarge
  · exact representable_natCast hsmall
  · have hfloor : ((2 ^ 53 : ℤ) : ℚ) ≤ q.1 := Int.le_floor.mp (by
      change (2 ^ 53 : ℤ) ≤ q.1.floor
      omega)
    obtain ⟨n, hn⟩ := exists_eq_intCast q.2 (by exact_mod_cast hfloor)
    have hwhole : q.1.floor = n := by
      rw [hn]
      exact Int.floor_intCast (R := ℚ) n
    have hint : (q.1.floor.toNat : ℤ) = n := by omega
    have hcast : ((q.1.floor.toNat : ℕ) : ℚ) = q.1 :=
      calc ((q.1.floor.toNat : ℕ) : ℚ) = ((q.1.floor.toNat : ℤ) : ℚ) := (Int.cast_natCast _).symm
        _ = n := by rw [hint]
        _ = q.1 := hn.symm
    rw [hcast]
    exact q.2

theorem toU64_ofNat_toU64 (x : F64) : (ofNat x.toU64.toNat).toU64 = x.toU64 := by
  have hzero : (ofNat (0 : UInt64).toNat).toU64 = 0 := by decide +kernel
  have hmax : (ofNat (UInt64.ofNat (2 ^ 64 - 1)).toNat).toU64 = UInt64.ofNat (2 ^ 64 - 1) := by
    decide +kernel
  cases x with
  | nan => exact hzero
  | inf s =>
    cases s with
    | true => exact hzero
    | false => exact hmax
  | finite q =>
    rcases lt_or_ge q.1.floor.toNat (2 ^ 64 - 1) with hlt | hge
    · have hn : (toU64 (.finite q)).toNat = q.1.floor.toNat := by
        rw [toNat_toU64, min_eq_left hlt.le]
      apply UInt64.toNat_inj.mp
      rw [hn]
      exact toU64_ofNat (representable_floor hlt) (by omega)
    · have hn : toU64 (.finite q) = UInt64.ofNat (2 ^ 64 - 1) := by
        rw [toU64, min_eq_right hge]
      rw [hn]
      exact hmax

end F64

open F64

namespace Duration

private theorem fromSecsF64_finite {q : {q : ℚ // Representable q}} {d : Duration}
    (h : fromSecsF64 (.finite q) = some d) : d.nanos = (roundEven (q.1 * 10 ^ 9)).toNat := by
  rw [fromSecsF64] at h
  dsimp only at h
  split_ifs at h
  rw [← Option.some.inj h]

private theorem fromSecsF64_of_close {q : {q : ℚ // Representable q}} {d : Duration} (hq : 0 ≤ q.1)
    (h : |q.1 * 10 ^ 9 - d.nanos| < 1 / 2) : fromSecsF64 (.finite q) = some d := by
  have hround : roundEven (q.1 * 10 ^ 9) = d.nanos := roundEven_eq_of_abs_lt (by exact_mod_cast h)
  have hnanos : (roundEven (q.1 * 10 ^ 9)).toNat = d.nanos := by
    rw [hround]
    exact Int.toNat_natCast _
  have hlt := d.lt
  rw [← hnanos] at hlt
  rw [fromSecsF64]
  dsimp only
  rw [if_neg (not_lt.mpr hq), dif_pos hlt]
  obtain ⟨nanos, _⟩ := d
  obtain rfl : (roundEven (q.1 * 10 ^ 9)).toNat = nanos := hnanos
  rfl

theorem fromSecsF64_mono {x y : F64} {d e : Duration} (hd : fromSecsF64 x = some d)
    (he : fromSecsF64 y = some e) (h : AtMost x y) : d.nanos ≤ e.nanos := by
  obtain ⟨a, rfl, _⟩ := isSome_fromSecsF64_iff.mp (Option.isSome_of_eq_some hd)
  obtain ⟨b, rfl, _⟩ := isSome_fromSecsF64_iff.mp (Option.isSome_of_eq_some he)
  have hle : a.1 ≤ b.1 := h
  rw [fromSecsF64_finite hd, fromSecsF64_finite he]
  refine Int.toNat_le_toNat (roundEven_mono ?_)
  exact mul_le_mul_of_nonneg_right hle (by norm_num)

/-- The longest duration, about 97 days, that float seconds tell from its neighbours by more than
their error. -/
def maxExactNanos : ℕ := 2 ^ 23 * 10 ^ 9

private theorem exists_ofNat_fraction_close {n : ℕ} (h : n < 10 ^ 9) :
    ∃ f, F64.ofNat n / F64.ofNat (10 ^ 9) = .finite f ∧ 0 ≤ f.1 ∧
      |f.1 - n / 10 ^ 9| ≤ powInt 2 (-54) := by
  obtain ⟨f, hf, hf0, _⟩ := exists_ofNat_fraction h
  refine ⟨f, hf, hf0, ?_⟩
  have hdiv : F64.ofNat n / F64.ofNat (10 ^ 9) = ofRat ((n : ℚ) / 10 ^ 9) := by
    rw [ofNat_eq (by omega), ofNat_eq (by norm_num), finite_div_finite _ (by norm_num)]
    norm_num
  have hn : (n : ℚ) < 10 ^ 9 := by exact_mod_cast h
  have hlt : |(n : ℚ) / 10 ^ 9| < powInt 2 0 := by
    have hone : powInt 2 0 = 1 := by norm_num [F64.powInt_eq_zpow]
    rw [abs_of_nonneg (by positivity), hone, div_lt_one (by norm_num)]
    exact hn
  have hquantum := quantum_le (by norm_num) hlt
  rw [val_of_ofRat (hdiv.symm.trans hf)]
  exact (abs_roundRat_sub_le _).trans (powInt_le_powInt.mpr (by omega))

theorem fromSecsF64_asSecsF64 {d : Duration} (h : d.nanos < maxExactNanos) :
    fromSecsF64 d.asSecsF64 = some d := by
  obtain ⟨a, ha⟩ : ∃ a, d.nanos / 10 ^ 9 = a := ⟨_, rfl⟩
  obtain ⟨b, hb⟩ : ∃ b, d.nanos % 10 ^ 9 = b := ⟨_, rfl⟩
  have ha23 : a + 1 ≤ 2 ^ 23 := by
    rw [maxExactNanos] at h
    omega
  have hb9 : b + 1 ≤ 10 ^ 9 := by omega
  have hsplit : (d.nanos : ℚ) = a * 10 ^ 9 + b := by
    have hnat : d.nanos = a * 10 ^ 9 + b := by omega
    exact_mod_cast hnat
  obtain ⟨f, hf, hf0, hfclose⟩ := exists_ofNat_fraction_close (show b < 10 ^ 9 from hb9)
  have hadd : d.asSecsF64 = ofRat (a + f.1) := by
    rw [asSecsF64, ha, hb, hf, ofNat_eq (by omega), finite_add_finite]
  have ha' : (a : ℚ) + 1 ≤ 2 ^ 23 := by exact_mod_cast ha23
  have hb' : (b : ℚ) + 1 ≤ 10 ^ 9 := by exact_mod_cast hb9
  have h23 : powInt 2 23 = 2 ^ 23 := by norm_num [F64.powInt_eq_zpow]
  have hsum0 : 0 ≤ (a : ℚ) + f.1 := add_nonneg (Nat.cast_nonneg a) hf0
  have hf1 : f.1 < 1 := by
    have htiny : powInt 2 (-54) < 1 / 10 ^ 9 := by norm_num [F64.powInt_eq_zpow]
    have hfrac : (b : ℚ) / 10 ^ 9 ≤ 1 - 1 / 10 ^ 9 := by
      rw [div_le_iff₀ (by norm_num)]
      linarith
    have := (abs_le.mp hfclose).2
    linarith
  have hsum : |(a : ℚ) + f.1| < powInt 2 23 := by
    rw [abs_of_nonneg hsum0, h23]
    linarith
  obtain ⟨r, hr, hround, hr0, _⟩ := ofRat_between representable_zero
    (representable_powInt (by norm_num) (by norm_num)) hsum0 (le_of_abs_le hsum.le)
  rw [hadd, hr]
  refine fromSecsF64_of_close hr0 ?_
  -- the two roundings together are off by less than half a nanosecond
  have hquantum := quantum_le (by norm_num) hsum
  have hrclose : |r.1 - (a + f.1)| ≤ powInt 2 (-31) := by
    rw [hround]
    exact (abs_roundRat_sub_le _).trans (powInt_le_powInt.mpr (by omega))
  have herror : (powInt 2 (-31) + powInt 2 (-54)) * 10 ^ 9 < 1 / 2 := by
    norm_num [F64.powInt_eq_zpow]
  have hexact : r.1 * 10 ^ 9 - d.nanos =
      ((r.1 - (a + f.1)) + (f.1 - b / 10 ^ 9)) * 10 ^ 9 := by
    rw [hsplit]
    ring
  rw [hexact, abs_mul, abs_of_pos (show (0 : ℚ) < 10 ^ 9 by norm_num)]
  refine lt_of_le_of_lt (mul_le_mul_of_nonneg_right ?_ (by norm_num)) herror
  exact (abs_add_le _ _).trans (add_le_add hrclose hfclose)

end Duration

end Mockinx.Lib
