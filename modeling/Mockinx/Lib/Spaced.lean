import Mathlib.Algebra.BigOperators.Group.List.Basic
import Mathlib.Algebra.Order.Ring.Defs
import Mathlib.Data.List.Chain
import Mathlib.Tactic.Linarith

/-!
Amounts that arrive a delay apart. What has arrived within a time after one of them is bounded by a
rate, and by one amount more.
-/

set_option autoImplicit false
set_option relaxedAutoImplicit false

namespace Mockinx.Lib

universe u

variable {K : Type u} [CommRing K] [LinearOrder K]

def Spaced (delay : K) (arrivals : List (K × K)) : Prop :=
  arrivals.IsChain fun e e' => e.1 + delay ≤ e'.1

/-- What has arrived by a time. -/
def amountBy (time : K) (arrivals : List (K × K)) : K :=
  ((arrivals.filter fun e => e.1 ≤ time).map Prod.snd).sum

variable {delay : K}

private theorem amountBy_cons (time : K) (e : K × K) (arrivals : List (K × K)) :
    amountBy time (e :: arrivals) = (if e.1 ≤ time then e.2 else 0) + amountBy time arrivals := by
  rw [amountBy, amountBy, List.filter_cons]
  by_cases h : e.1 ≤ time <;> simp [h]

private theorem amountBy_eq_zero {time : K} {arrivals : List (K × K)}
    (h : ∀ e ∈ arrivals, time < e.1) :
    amountBy time arrivals = 0 := by
  have hnil : arrivals.filter (fun e => e.1 ≤ time) = [] := by
    rw [List.filter_eq_nil_iff]
    intro e he
    simpa using h e he
  rw [amountBy, hnil]
  rfl

variable [IsStrictOrderedRing K]

private theorem Spaced.le_of_mem (hdelay : 0 ≤ delay) {e e' : K × K} {arrivals : List (K × K)}
    (h : Spaced delay (e :: arrivals)) (hmem : e' ∈ arrivals) : e.1 ≤ e'.1 := by
  induction arrivals generalizing e with
  | nil => cases hmem
  | cons f arrivals ih =>
    obtain ⟨hgap, hrest⟩ := List.isChain_cons_cons.mp h
    have hle : e.1 ≤ f.1 := (le_add_of_nonneg_right hdelay).trans hgap
    rcases List.mem_cons.mp hmem with rfl | hmem
    · exact hle
    · exact hle.trans (ih hrest hmem)

theorem Spaced.amountBy_le {rate amount : K} (hdelay : 0 ≤ delay) (hrate : 0 ≤ rate)
    (hamount : amount ≤ rate * delay) {e : K × K} {arrivals : List (K × K)}
    (h : Spaced delay (e :: arrivals)) (hle : ∀ e' ∈ e :: arrivals, e'.2 ≤ amount) {t : K}
    (ht : 0 ≤ t) : amountBy (e.1 + t) (e :: arrivals) ≤ rate * t + amount := by
  induction arrivals generalizing e t with
  | nil =>
    have hfirst := hle e List.mem_cons_self
    have hpos := mul_nonneg hrate ht
    rw [amountBy_cons, if_pos (le_add_of_nonneg_right ht), amountBy_eq_zero (by simp)]
    linarith
  | cons f arrivals ih =>
    obtain ⟨hgap, hrest⟩ := List.isChain_cons_cons.mp h
    have hfirst := hle e List.mem_cons_self
    rw [amountBy_cons, if_pos (le_add_of_nonneg_right ht)]
    rcases le_or_gt f.1 (e.1 + t) with hreached | hlate
    · -- from the next arrival on there is a delay less
      have htail := ih hrest (fun e' he' => hle e' (List.mem_cons_of_mem e he'))
        (sub_nonneg.mpr hreached)
      rw [add_sub_cancel] at htail
      have hrate' : rate * (e.1 + t - f.1) ≤ rate * (t - delay) :=
        mul_le_mul_of_nonneg_left (by linarith) hrate
      rw [mul_sub] at hrate'
      linarith
    · have hnone : amountBy (e.1 + t) (f :: arrivals) = 0 := by
        refine amountBy_eq_zero fun e' he' => ?_
        rcases List.mem_cons.mp he' with rfl | hmem
        · exact hlate
        · exact hlate.trans_le (Spaced.le_of_mem hdelay hrest hmem)
      have hpos := mul_nonneg hrate ht
      rw [hnone]
      linarith

end Mockinx.Lib
