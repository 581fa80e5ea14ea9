import Mathlib.Algebra.Order.BigOperators.Group.List
import Mathlib.Data.Nat.SuccPred
import Mathlib.Order.CompletePartialOrder
import Mathlib.Order.SuccPred.IntervalSucc

/-!
Picking from a list of weights by a roll. The cumulative weights cut the line from zero to the total
into consecutive half-open intervals, one for each entry, and a roll picks the entry whose interval
it falls into.
-/

set_option autoImplicit false
set_option relaxedAutoImplicit false

namespace Mockinx.Lib

universe u

def pick {F : Type u} [Add F] [LT F] [DecidableLT F] (roll : F) : F → List F → Option ℕ
  | _, [] => none
  | start, w :: ws => if roll < start + w then some 0 else (pick roll (start + w) ws).map (· + 1)

theorem lt_length_of_pick {F : Type u} [Add F] [LT F] [DecidableLT F] {roll start : F}
    {ws : List F} {i : ℕ} (h : pick roll start ws = some i) : i < ws.length := by
  induction ws generalizing start i with
  | nil => cases h
  | cons w ws ih =>
    rw [pick] at h
    split_ifs at h with hlt
    · obtain rfl := Option.some.inj h
      exact Nat.succ_pos _
    · obtain ⟨j, hj, rfl⟩ := Option.map_eq_some_iff.mp h
      exact Nat.succ_lt_succ (ih hj)

theorem pick_append {F : Type u} [Add F] [LT F] [DecidableLT F] {roll start : F} {ws : List F}
    {i : ℕ} (h : pick roll start ws = some i) (more : List F) :
    pick roll start (ws ++ more) = some i := by
  induction ws generalizing start i with
  | nil => cases h
  | cons w ws ih =>
    rw [pick] at h
    rw [List.cons_append, pick]
    split_ifs at h ⊢ with hlt
    · exact h
    · obtain ⟨j, hj, rfl⟩ := Option.map_eq_some_iff.mp h
      rw [ih hj, Option.map_some]

variable {F : Type u} [AddCommGroup F]

def startOf (ws : List F) (i : ℕ) : F := (ws.take i).sum

@[simp] theorem startOf_zero (ws : List F) : startOf ws 0 = 0 := rfl

private theorem startOf_cons_succ (w : F) (ws : List F) (i : ℕ) :
    startOf (w :: ws) (i + 1) = w + startOf ws i :=
  List.sum_cons

theorem startOf_succ {ws : List F} {i : ℕ} {w : F} (h : ws[i]? = some w) :
    startOf ws (i + 1) = startOf ws i + w := by
  obtain ⟨hi, rfl⟩ := List.getElem?_eq_some_iff.mp h
  exact List.sum_take_succ ws i hi

private theorem startOf_of_le {ws : List F} {i : ℕ} (h : ws.length ≤ i) :
    startOf ws i = ws.sum := by
  rw [startOf, List.take_of_length_le h]

variable [LinearOrder F] [IsOrderedAddMonoid F]

private theorem monotone_startOf {ws : List F} (h : ∀ w ∈ ws, 0 ≤ w) : Monotone (startOf ws) := by
  refine monotone_nat_of_le_succ fun i => ?_
  rcases lt_or_ge i ws.length with hi | hi
  · rw [startOf_succ (List.getElem?_eq_getElem hi)]
    exact le_add_of_nonneg_right (h _ (List.getElem_mem hi))
  · rw [startOf_of_le hi, startOf_of_le (hi.trans (Nat.le_succ i))]

theorem startOf_nonneg {ws : List F} (h : ∀ w ∈ ws, 0 ≤ w) (i : ℕ) : 0 ≤ startOf ws i :=
  monotone_startOf h (Nat.zero_le i)

theorem pairwise_disjoint_intervals {ws : List F} (h : ∀ w ∈ ws, 0 ≤ w) :
    Pairwise (Function.onFun Disjoint fun i => Set.Ico (startOf ws i) (startOf ws (i + 1))) :=
  (monotone_startOf h).pairwise_disjoint_on_Ico_succ

theorem pick_eq_some_iff {ws : List F} (h : ∀ w ∈ ws, 0 ≤ w) {roll start : F}
    (hstart : start ≤ roll) {i : ℕ} :
    pick roll start ws = some i ↔
      i < ws.length ∧ start + startOf ws i ≤ roll ∧ roll < start + startOf ws (i + 1) := by
  induction ws generalizing start i with
  | nil => simp [pick]
  | cons w ws ih =>
    have hws : ∀ w ∈ ws, 0 ≤ w := fun w' hw => h w' (List.mem_cons_of_mem w hw)
    rw [pick]
    cases i with
    | zero =>
      rw [startOf_cons_succ, startOf_zero, startOf_zero, add_zero, add_zero]
      split_ifs with hlt
      · simp [hstart, hlt]
      · simp [hlt]
    | succ i =>
      rw [startOf_cons_succ, startOf_cons_succ, ← add_assoc, ← add_assoc, List.length_cons,
        Nat.add_lt_add_iff_right]
      split_ifs with hlt
      · have hpast : roll < start + w + startOf ws i :=
          lt_of_lt_of_le hlt (le_add_of_nonneg_right (startOf_nonneg hws i))
        simp [not_le.mpr hpast]
      · rw [Option.map_eq_some_iff]
        simp only [Nat.add_right_cancel_iff, exists_eq_right]
        exact ih hws (not_lt.mp hlt)

theorem pick_eq_none_iff {ws : List F} (h : ∀ w ∈ ws, 0 ≤ w) {roll start : F}
    (hstart : start ≤ roll) : pick roll start ws = none ↔ start + ws.sum ≤ roll := by
  induction ws generalizing start with
  | nil => simpa [pick] using hstart
  | cons w ws ih =>
    have hws : ∀ w ∈ ws, 0 ≤ w := fun w' hw => h w' (List.mem_cons_of_mem w hw)
    rw [pick, List.sum_cons, ← add_assoc]
    split_ifs with hlt
    · have hpast : roll < start + w + ws.sum :=
        lt_of_lt_of_le hlt (le_add_of_nonneg_right (List.sum_nonneg hws))
      simp [not_le.mpr hpast]
    · rw [Option.map_eq_none_iff]
      exact ih hws (not_lt.mp hlt)

end Mockinx.Lib
