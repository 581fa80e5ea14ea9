import Mathlib.Algebra.Order.Field.Power
import Mathlib.Data.Rat.Floor
import Mathlib.Tactic.Linarith
import Mathlib.Tactic.FieldSimp
import Mathlib.Tactic.Positivity
import Mathlib.Tactic.Ring
import Mathlib.Tactic.NormNum

/-!
The binary64 format of IEEE 754 over exact rationals: a finite value is a representable rational,
each operation is the exact result rounded to nearest with ties to even, and a result past the
largest finite value is an infinity. The two zeros are one value.
-/

set_option autoImplicit false
set_option relaxedAutoImplicit false

namespace Mockinx.Lib

/-- Integer powers of a natural base, evaluated with natural powers only. -/
def powInt (b : ℕ) (e : ℤ) : ℚ :=
  if 0 ≤ e then ((b ^ e.toNat : ℕ) : ℚ) else 1 / ((b ^ (-e).toNat : ℕ) : ℚ)

/-- The rationals with a 53-bit significand and an exponent in the finite range. -/
def Representable (q : ℚ) : Prop :=
  ∃ m e : ℤ, |m| < 2 ^ 53 ∧ -1074 ≤ e ∧ e ≤ 971 ∧ q = m * powInt 2 e

/-- A binary64 value. -/
inductive F64 where
  | nan
  | inf (neg : Bool)
  | finite (q : {q : ℚ // Representable q})
  deriving DecidableEq

namespace F64

theorem powInt_eq_zpow (b : ℕ) (e : ℤ) : powInt b e = (b : ℚ) ^ e := by
  rw [powInt]
  split_ifs with h
  · obtain ⟨n, rfl⟩ := Int.eq_ofNat_of_zero_le h
    simp
  · obtain ⟨n, hn⟩ := Int.eq_ofNat_of_zero_le (show 0 ≤ -e by omega)
    obtain rfl : e = -(n : ℤ) := by omega
    simp

theorem powInt_pos (e : ℤ) : 0 < powInt 2 e := by
  rw [powInt_eq_zpow]
  positivity

private theorem powInt_add (a b : ℤ) : powInt 2 (a + b) = powInt 2 a * powInt 2 b := by
  simp only [powInt_eq_zpow]
  exact zpow_add₀ (by norm_num) a b

theorem powInt_shift (n : ℕ) (e : ℤ) : powInt 2 (n + e) = ((2 ^ n : ℤ) : ℚ) * powInt 2 e := by
  rw [powInt_add, powInt_eq_zpow 2 n]
  norm_num

theorem powInt_lt_powInt {a b : ℤ} : powInt 2 a < powInt 2 b ↔ a < b := by
  simp only [powInt_eq_zpow]
  exact zpow_lt_zpow_iff_right₀ (by norm_num)

theorem powInt_le_powInt {a b : ℤ} : powInt 2 a ≤ powInt 2 b ↔ a ≤ b := by
  simp only [powInt_eq_zpow]
  exact zpow_le_zpow_iff_right₀ (by norm_num)

/-- The exponent of the leading binary digit. -/
def ilog2 (q : ℚ) : ℤ :=
  let k : ℤ := (Nat.log2 q.num.natAbs : ℤ) - (Nat.log2 q.den : ℤ)
  if powInt 2 k ≤ |q| then k else k - 1

/-- The nearest integer, ties to even. -/
def roundEven (q : ℚ) : ℤ :=
  let f := ⌊q⌋
  let r := q - f
  if r < 1 / 2 then f else if 1 / 2 < r then f + 1 else if f % 2 = 0 then f else f + 1

/-- The weight of the last significand bit of the result. -/
def quantum (q : ℚ) : ℤ := max (ilog2 q - 52) (-1074)

def roundRat (q : ℚ) : ℚ := roundEven (q / powInt 2 (quantum q)) * powInt 2 (quantum q)

theorem roundEven_close (q : ℚ) : |(roundEven q : ℚ) - q| ≤ 1 / 2 := by
  have h0 := Int.floor_le q
  have h1 := Int.lt_floor_add_one q
  unfold roundEven
  dsimp only
  rw [abs_le]
  split_ifs with hlt hgt heven <;> push_cast <;> constructor <;> linarith

private theorem abs_roundEven_le {q : ℚ} {n : ℤ} (h : |q| ≤ n) : |roundEven q| ≤ n := by
  have hc := roundEven_close q
  have ht : |(roundEven q : ℚ)| ≤ |q| + 1 / 2 := by
    have := abs_sub_abs_le_abs_sub (roundEven q : ℚ) q
    linarith
  have hlt : ((|roundEven q| : ℤ) : ℚ) < ((n + 1 : ℤ) : ℚ) := by
    push_cast
    linarith
  have := Int.cast_lt.mp hlt
  omega

private theorem le_abs_roundEven {q : ℚ} {n : ℤ} (h : (n : ℚ) ≤ |q|) : n ≤ |roundEven q| := by
  have hc := roundEven_close q
  have ht : |q| - 1 / 2 ≤ |(roundEven q : ℚ)| := by
    have := abs_sub_abs_le_abs_sub q (roundEven q : ℚ)
    rw [abs_sub_comm] at this
    linarith
  have hlt : ((n - 1 : ℤ) : ℚ) < ((|roundEven q| : ℤ) : ℚ) := by
    push_cast
    linarith
  have := Int.cast_lt.mp hlt
  omega

private theorem natCast_log2_bounds {n : ℕ} (h : n ≠ 0) :
    powInt 2 (Nat.log2 n) ≤ n ∧ (n : ℚ) < powInt 2 (Nat.log2 n + 1) := by
  rw [powInt_eq_zpow, powInt_eq_zpow]
  constructor
  · exact_mod_cast Nat.log2_self_le h
  · exact_mod_cast Nat.lt_log2_self

theorem ilog2_spec {q : ℚ} (h : q ≠ 0) :
    powInt 2 (ilog2 q) ≤ |q| ∧ |q| < powInt 2 (ilog2 q + 1) := by
  obtain ⟨hn0, hn1⟩ := natCast_log2_bounds (Int.natAbs_ne_zero.mpr (Rat.num_ne_zero.mpr h))
  obtain ⟨hd0, hd1⟩ := natCast_log2_bounds q.den_nz
  have hd : (0 : ℚ) < q.den := by exact_mod_cast q.den_pos
  have habs : |q| = (q.num.natAbs : ℚ) / q.den := by
    conv_lhs => rw [← Rat.num_div_den q]
    rw [abs_div, abs_of_pos hd, Nat.cast_natAbs, Int.cast_abs]
  have hupper : |q| < powInt 2 ((Nat.log2 q.num.natAbs : ℤ) - Nat.log2 q.den + 1) := by
    rw [habs, div_lt_iff₀ hd]
    calc (q.num.natAbs : ℚ) < powInt 2 (Nat.log2 q.num.natAbs + 1) := hn1
      _ = powInt 2 ((Nat.log2 q.num.natAbs : ℤ) - Nat.log2 q.den + 1) *
            powInt 2 (Nat.log2 q.den) := by rw [← powInt_add]; congr 1; ring
      _ ≤ _ := mul_le_mul_of_nonneg_left hd0 (powInt_pos _).le
  have hlower : powInt 2 ((Nat.log2 q.num.natAbs : ℤ) - Nat.log2 q.den - 1) ≤ |q| := by
    rw [habs, le_div_iff₀ hd]
    calc powInt 2 ((Nat.log2 q.num.natAbs : ℤ) - Nat.log2 q.den - 1) * q.den
        ≤ powInt 2 ((Nat.log2 q.num.natAbs : ℤ) - Nat.log2 q.den - 1) *
            powInt 2 (Nat.log2 q.den + 1) := mul_le_mul_of_nonneg_left hd1.le (powInt_pos _).le
      _ = powInt 2 (Nat.log2 q.num.natAbs) := by rw [← powInt_add]; congr 1; ring
      _ ≤ _ := hn0
  unfold ilog2
  dsimp only
  split_ifs with hk
  · exact ⟨hk, hupper⟩
  · exact ⟨hlower, by simpa using not_le.mp hk⟩

theorem representable_roundRat {q : ℚ} (h : |roundRat q| < powInt 2 1024) :
    Representable (roundRat q) := by
  by_cases hq : q = 0
  · subst hq
    exact ⟨0, 0, by norm_num, by norm_num, by norm_num, by simp [roundRat, roundEven]⟩
  obtain ⟨hlo, hhi⟩ := ilog2_spec hq
  have hpos := powInt_pos (quantum q)
  have hscaled : |q / powInt 2 (quantum q)| = |q| / powInt 2 (quantum q) := by
    rw [abs_div, abs_of_pos hpos]
  have hle : |roundEven (q / powInt 2 (quantum q))| ≤ 2 ^ 53 := by
    apply abs_roundEven_le
    rw [hscaled, div_le_iff₀ hpos]
    calc |q| ≤ powInt 2 (ilog2 q + 1) := hhi.le
      _ ≤ powInt 2 (53 + quantum q) := powInt_le_powInt.mpr (by unfold quantum; omega)
      _ = _ := powInt_shift 53 _
  have habs : |roundRat q| =
      (|roundEven (q / powInt 2 (quantum q))| : ℤ) * powInt 2 (quantum q) := by
    rw [roundRat, abs_mul, abs_of_pos hpos, Int.cast_abs]
  rcases lt_or_eq_of_le hle with hlt | heq
  · refine ⟨_, quantum q, hlt, le_max_right _ _, ?_, rfl⟩
    by_contra hbig
    have hge : 2 ^ 52 ≤ |roundEven (q / powInt 2 (quantum q))| := by
      apply le_abs_roundEven
      rw [hscaled, le_div_iff₀ hpos]
      calc ((2 ^ 52 : ℤ) : ℚ) * powInt 2 (quantum q) = powInt 2 (52 + quantum q) :=
            (powInt_shift 52 _).symm
        _ ≤ powInt 2 (ilog2 q) := powInt_le_powInt.mpr (by unfold quantum at hbig ⊢; omega)
        _ ≤ |q| := hlo
    have hover : powInt 2 1024 ≤ |roundRat q| := by
      rw [habs]
      calc powInt 2 1024 ≤ powInt 2 (52 + quantum q) := powInt_le_powInt.mpr (by omega)
        _ = ((2 ^ 52 : ℤ) : ℚ) * powInt 2 (quantum q) := powInt_shift 52 _
        _ ≤ _ := mul_le_mul_of_nonneg_right (by exact_mod_cast hge) hpos.le
    linarith
  · have hexp : 53 + quantum q < 1024 := by
      rw [← powInt_lt_powInt]
      refine lt_of_eq_of_lt ?_ h
      rw [habs, heq]
      exact powInt_shift 53 _
    have hquantum : -1074 ≤ quantum q := le_max_right _ _
    have hdouble : powInt 2 (quantum q + 1) = 2 * powInt 2 (quantum q) := by
      rw [add_comm]
      exact (powInt_shift 1 _).trans (by norm_num)
    -- a significand that rounded up to 2 ^ 53 is renormalised with the next exponent
    rcases abs_choice (roundEven (q / powInt 2 (quantum q))) with hs | hs
    · refine ⟨2 ^ 52, quantum q + 1, by norm_num, by omega, by omega, ?_⟩
      rw [roundRat, hdouble, show roundEven (q / powInt 2 (quantum q)) = 2 ^ 53 by omega]
      push_cast
      ring
    · refine ⟨-2 ^ 52, quantum q + 1, by norm_num, by omega, by omega, ?_⟩
      rw [roundRat, hdouble, show roundEven (q / powInt 2 (quantum q)) = -2 ^ 53 by omega]
      push_cast
      ring

/-- Rounding an exact result into the format. -/
def ofRat (q : ℚ) : F64 :=
  if h : |roundRat q| < powInt 2 1024 then .finite ⟨roundRat q, representable_roundRat h⟩
  else .inf (decide (q < 0))

instance (n : ℕ) : OfNat F64 n := ⟨ofRat n⟩

def neg : F64 → F64
  | .nan => .nan
  | .inf s => .inf (!s)
  | .finite q => ofRat (-q.1)

def add : F64 → F64 → F64
  | .nan, _ => .nan
  | _, .nan => .nan
  | .inf s, .inf t => if s = t then .inf s else .nan
  | .inf s, .finite _ => .inf s
  | .finite _, .inf t => .inf t
  | .finite a, .finite b => ofRat (a.1 + b.1)

def mul : F64 → F64 → F64
  | .nan, _ => .nan
  | _, .nan => .nan
  | .inf s, .inf t => .inf (xor s t)
  | .inf s, .finite b => if b.1 = 0 then .nan else .inf (xor s (decide (b.1 < 0)))
  | .finite a, .inf t => if a.1 = 0 then .nan else .inf (xor (decide (a.1 < 0)) t)
  | .finite a, .finite b => ofRat (a.1 * b.1)

def div : F64 → F64 → F64
  | .nan, _ => .nan
  | _, .nan => .nan
  | .inf _, .inf _ => .nan
  | .inf s, .finite b => .inf (xor s (decide (b.1 < 0)))
  | .finite _, .inf _ => ofRat 0
  | .finite a, .finite b =>
    if b.1 = 0 then (if a.1 = 0 then .nan else .inf (decide (a.1 < 0))) else ofRat (a.1 / b.1)

instance : Add F64 := ⟨add⟩
instance : Sub F64 := ⟨fun a b => add a (neg b)⟩
instance : Mul F64 := ⟨mul⟩
instance : Div F64 := ⟨div⟩

/-- The strict order; every comparison with a NaN is false. -/
def lt : F64 → F64 → Bool
  | .nan, _ => false
  | _, .nan => false
  | .inf s, .inf t => s && !t
  | .inf s, .finite _ => s
  | .finite _, .inf t => !t
  | .finite a, .finite b => decide (a.1 < b.1)

instance : LT F64 := ⟨fun a b => lt a b = true⟩

instance (a b : F64) : Decidable (a < b) := inferInstanceAs (Decidable (lt a b = true))

/-- Numeric equality: a NaN equals nothing. -/
def feq (a b : F64) : Bool := decide (a ≠ .nan ∧ a = b)

def abs (a : F64) : F64 := if a < 0 then neg a else a

/-- Conversion to an unsigned 64-bit integer: truncation, saturating at both ends, NaN to zero. -/
def toU64 : F64 → UInt64
  | .nan => 0
  | .inf s => if s then 0 else UInt64.ofNat (2 ^ 64 - 1)
  | .finite q => UInt64.ofNat (min q.1.floor.toNat (2 ^ 64 - 1))

def ofNat (n : ℕ) : F64 := ofRat n

/-- The exponent part of a decimal literal. -/
def parseExponent : List Char → Option ℤ
  | [] => some 0
  | c :: s =>
    if c = 'e' ∨ c = 'E' then
      let (negative, digits) := match s with
        | '-' :: t => (true, t)
        | '+' :: t => (false, t)
        | _ => (false, s)
      if digits ≠ [] ∧ digits.all Char.isDigit then
        let n : ℤ := Nat.ofDigitChars 10 digits 0
        some (if negative then -n else n)
      else none
    else none

/-- An unsigned decimal literal: digits with an optional point, and an optional exponent. -/
def parseDecimal (s : List Char) : Option ℚ :=
  let whole := s.takeWhile Char.isDigit
  let rest := s.dropWhile Char.isDigit
  let (frac, tail) := match rest with
    | '.' :: t => (t.takeWhile Char.isDigit, t.dropWhile Char.isDigit)
    | _ => ([], rest)
  if whole = [] ∧ frac = [] then none
  else (parseExponent tail).map fun e =>
    (Nat.ofDigitChars 10 (whole ++ frac) 0 : ℚ) * powInt 10 (e - frac.length)

/-- Reading a float: an optional sign, then a decimal literal or one of the words for the
infinities and the NaN in any letter case. -/
def parse (s : List Char) : Option F64 :=
  let (negative, body) := match s with
    | '-' :: t => (true, t)
    | '+' :: t => (false, t)
    | _ => (false, s)
  let word := String.ofList (body.map Char.toLower)
  if word = "inf" ∨ word = "infinity" then some (.inf negative)
  else if word = "nan" then some .nan
  else (parseDecimal body).map fun q => ofRat (if negative then -q else q)

example : parse "0.3".toList = some (ofRat (3 / 10)) := by decide +kernel

example : ofRat (1 / 10) + ofRat (2 / 10) ≠ ofRat (3 / 10) := by decide +kernel

end F64

end Mockinx.Lib
