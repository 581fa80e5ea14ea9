import Mockinx.Lib.F64

/-!
Durations and instants of a systems language in whole nanoseconds. A duration holds any 64-bit
number of seconds; an instant holds its seconds as a signed 64-bit integer, and adding a duration
past that range is an error.
-/

set_option autoImplicit false
set_option relaxedAutoImplicit false

namespace Mockinx.Lib

/-- A span of time below `2 ^ 64` seconds. -/
structure Duration where
  nanos : ℕ
  lt : nanos < 2 ^ 64 * 10 ^ 9
  deriving DecidableEq

namespace Duration

instance : LE Duration := ⟨fun a b => a.nanos ≤ b.nanos⟩
instance : LT Duration := ⟨fun a b => a.nanos < b.nanos⟩
instance (a b : Duration) : Decidable (a ≤ b) := inferInstanceAs (Decidable (a.nanos ≤ b.nanos))
instance (a b : Duration) : Decidable (a < b) := inferInstanceAs (Decidable (a.nanos < b.nanos))

def zero : Duration := ⟨0, by norm_num⟩

def asMillis (d : Duration) : ℕ := d.nanos / 10 ^ 6

/-- Seconds as a float: the whole seconds and the fraction are converted and added. -/
def asSecsF64 (d : Duration) : F64 :=
  F64.ofNat (d.nanos / 10 ^ 9) + F64.ofNat (d.nanos % 10 ^ 9) / F64.ofNat (10 ^ 9)

/-- Conversion from float seconds, to the nearest nanosecond. There is no duration for a negative,
a non-finite or a too large number. -/
def fromSecsF64 (x : F64) : Option Duration :=
  match x with
  | .finite q =>
    if q.1 < 0 then none
    else
      let n := (F64.roundEven (q.1 * 10 ^ 9)).toNat
      if h : n < 2 ^ 64 * 10 ^ 9 then some ⟨n, h⟩ else none
  | _ => none

/-- Division by an integer, rounded down; there is no quotient by zero. -/
def divNat (d : Duration) (n : ℕ) : Option Duration :=
  if n = 0 then none else some ⟨d.nanos / n, lt_of_le_of_lt (Nat.div_le_self _ _) d.lt⟩

end Duration

/-- A point on a monotone clock, in nanoseconds. -/
structure Instant where
  nanos : ℤ
  inRange : -(2 ^ 63 * 10 ^ 9) ≤ nanos ∧ nanos < 2 ^ 63 * 10 ^ 9
  deriving DecidableEq

namespace Instant

def zero : Instant := ⟨0, by norm_num⟩

instance : LE Instant := ⟨fun a b => a.nanos ≤ b.nanos⟩
instance : LT Instant := ⟨fun a b => a.nanos < b.nanos⟩
instance (a b : Instant) : Decidable (a ≤ b) := inferInstanceAs (Decidable (a.nanos ≤ b.nanos))
instance (a b : Instant) : Decidable (a < b) := inferInstanceAs (Decidable (a.nanos < b.nanos))

def checkedAdd (t : Instant) (d : Duration) : Option Instant :=
  if h : t.nanos + d.nanos < 2 ^ 63 * 10 ^ 9 then
    some ⟨t.nanos + d.nanos, le_trans t.inRange.1 (by omega), h⟩
  else none

def checkedSub (t : Instant) (d : Duration) : Option Instant :=
  if h : -(2 ^ 63 * 10 ^ 9) ≤ t.nanos - d.nanos then
    some ⟨t.nanos - d.nanos, h, lt_of_le_of_lt (by omega) t.inRange.2⟩
  else none

theorem not_le {a b : Instant} : ¬ a ≤ b ↔ b < a := Int.not_le

theorem lt_irrefl (a : Instant) : ¬ a < a := Int.lt_irrefl a.nanos

theorem eq_of_nanos {a b : Instant} (h : a.nanos = b.nanos) : a = b := by
  obtain ⟨x, hx⟩ := a
  obtain ⟨y, hy⟩ := b
  obtain rfl : x = y := h
  rfl

theorem checkedAdd_eq_some {t u : Instant} {d : Duration} :
    t.checkedAdd d = some u ↔ u.nanos = t.nanos + d.nanos := by
  rw [checkedAdd]
  constructor
  · intro heq
    split_ifs at heq
    rw [← Option.some.inj heq]
  · intro heq
    have hrange := u.inRange.2
    rw [heq] at hrange
    rw [dif_pos hrange]
    exact congrArg some (eq_of_nanos heq.symm)

theorem exists_checkedAdd {t u : Instant} {d : Duration} (h : t.nanos + d.nanos ≤ u.nanos) :
    ∃ w, t.checkedAdd d = some w ∧ w.nanos = t.nanos + d.nanos := by
  have hrange := u.inRange.2
  have hlt : t.nanos + d.nanos < 2 ^ 63 * 10 ^ 9 := by omega
  rw [checkedAdd, dif_pos hlt]
  exact ⟨_, rfl, rfl⟩

end Instant

end Mockinx.Lib
