import Mathlib.Algebra.Ring.Nat

/-!
The ways in which a function of a systems language ends without a value, and 64-bit counters under
the two build settings for integer overflow.
-/

set_option autoImplicit false
set_option relaxedAutoImplicit false

namespace Mockinx.Lib

/-- Why a function panicked. -/
inductive Panic where
  | overflow
  | divideByZero
  | outOfRange
  | invalidDuration
  | unwrapNone
  | unreachable (msg : String)
  deriving DecidableEq

/-- Whether integer overflow is checked (and panics) or wraps around. -/
inductive OverflowChecks where
  | checked
  | wrapping
  deriving DecidableEq

/-- One more than a 64-bit counter. -/
def OverflowChecks.succ (o : OverflowChecks) (n : UInt64) : Except Panic UInt64 :=
  if n.toNat + 1 < 2 ^ 64 then .ok (n + 1)
  else match o with
    | .checked => .error .overflow
    | .wrapping => .ok (n + 1)

theorem OverflowChecks.succ_of_lt (o : OverflowChecks) {n : UInt64} (h : n.toNat + 1 < 2 ^ 64) :
    o.succ n = .ok (n + 1) :=
  if_pos h

theorem OverflowChecks.eq_of_succ {o : OverflowChecks} {n m : UInt64} (h : o.succ n = .ok m) :
    m = n + 1 := by
  unfold OverflowChecks.succ at h
  split_ifs at h
  · exact (Except.ok.inj h).symm
  · cases o with
    | checked => cases h
    | wrapping => exact (Except.ok.inj h).symm

theorem OverflowChecks.toNat_add_one_of_max {n : UInt64} (h : n.toNat + 1 = 2 ^ 64) :
    (n + 1).toNat = 0 := by
  rw [UInt64.toNat_add, UInt64.toNat_one, h, Nat.mod_self]

theorem OverflowChecks.toNat_add_one {n : UInt64} (h : n.toNat + 1 < 2 ^ 64) :
    (n + 1).toNat = n.toNat + 1 := by
  rw [UInt64.toNat_add, UInt64.toNat_one, Nat.mod_eq_of_lt h]

end Mockinx.Lib
