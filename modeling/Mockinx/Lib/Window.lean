import Mathlib.Algebra.Order.Group.Defs
import Mathlib.Data.List.Count

/-!
Sliding windows over a log of event times, which need not be in order. A log has at most a number
of events in every window of a width when each new event finds fewer than that many behind the start
of the window that ends with it.
-/

set_option autoImplicit false
set_option relaxedAutoImplicit false

namespace Mockinx.Lib

universe u

variable {τ : Type u} [AddCommGroup τ] [LinearOrder τ]

/-- No half-open window of the width holds more than `n` events. -/
def AtMost (width : τ) (n : ℕ) (log : List τ) : Prop :=
  ∀ start, log.countP (fun t => start ≤ t ∧ t < start + width) ≤ n

def recent (width now : τ) (log : List τ) : ℕ := log.countP fun t => now - width < t

theorem atMost_nil (width : τ) (n : ℕ) : AtMost width n ([] : List τ) := fun _ => Nat.zero_le n

theorem AtMost.concat [IsOrderedAddMonoid τ] {width now : τ} {n : ℕ} {log : List τ}
    (h : AtMost width n log) (hrecent : recent width now log < n) :
    AtMost width n (log ++ [now]) := by
  intro start
  rw [List.countP_append, List.countP_singleton]
  by_cases hin : start ≤ now ∧ now < start + width
  · have hle : log.countP (fun t => start ≤ t ∧ t < start + width) ≤ recent width now log := by
      refine List.countP_mono_left fun t _ ht => ?_
      rw [decide_eq_true_eq] at ht ⊢
      exact lt_of_lt_of_le (sub_lt_iff_lt_add.mpr hin.2) ht.1
    rw [if_pos (decide_eq_true hin)]
    omega
  · rw [if_neg (by simpa using hin)]
    exact h start

def within (width now : τ) (log : List τ) : ℕ := log.countP fun t => now - width < t ∧ t ≤ now

theorem recent_eq_within {width now : τ} {log : List τ} (h : ∀ t ∈ log, t ≤ now) :
    recent width now log = within width now log := by
  refine List.countP_congr fun t ht => ?_
  rw [decide_eq_true_eq, decide_eq_true_eq]
  exact ⟨fun hlt => ⟨hlt, h t ht⟩, And.left⟩

theorem filter_filter_recent [IsOrderedAddMonoid τ] {width last now : τ} (h : last ≤ now)
    (log : List τ) :
    (log.filter fun t => last - width < t).filter (fun t => now - width < t) =
      log.filter fun t => now - width < t := by
  rw [List.filter_filter]
  refine List.filter_congr fun t _ => ?_
  have himp : now - width < t → last - width < t :=
    fun hlt => lt_of_le_of_lt (sub_le_sub_right h width) hlt
  by_cases hnow : now - width < t
  · simp [hnow, himp hnow]
  · simp [hnow]

theorem recent_append (width now : τ) (log log' : List τ) :
    recent width now (log ++ log') = recent width now log + recent width now log' :=
  List.countP_append

theorem recent_perm {width now : τ} {log log' : List τ} (h : log.Perm log') :
    recent width now log = recent width now log' :=
  h.countP_eq _

end Mockinx.Lib
