import Mathlib.Data.List.MinMax
import Mathlib.Data.Nat.Init

/-!
Loops over lists. A loop whose steps may fail runs through if each step keeps an invariant that
knows the position; what is least among the elements below a bound is the least of all, if that is
below the bound.
-/

set_option autoImplicit false
set_option relaxedAutoImplicit false

universe u v w

namespace Mockinx.Lib

section Loop

theorem ok_bind {ε : Type v} {α β : Type u} (a : α) (f : α → Except ε β) : (.ok a >>= f) = f a :=
  rfl

variable {σ : Type u} {ε : Type v} {f : σ → ℕ → Except ε σ} {I : ℕ → σ → Prop}

theorem exists_foldlM_range' {start count : ℕ}
    (hstep : ∀ k s, start ≤ k → k < start + count → I k s → ∃ t, f s k = .ok t ∧ I (k + 1) t)
    {s : σ} (hs : I start s) :
    ∃ t, (List.range' start count).foldlM f s = .ok t ∧ I (start + count) t := by
  induction count generalizing start s with
  | zero => exact ⟨s, rfl, hs⟩
  | succ count ih =>
    obtain ⟨t, ht, hI⟩ := hstep start s (Nat.le_refl start) (by omega) hs
    obtain ⟨u, hu, hend⟩ := ih (fun k s hle hlt => hstep k s (by omega) (by omega)) hI
    refine ⟨u, ?_, ?_⟩
    · rw [List.range'_succ, List.foldlM_cons, ht, ok_bind, hu]
    · rwa [show start + (count + 1) = start + 1 + count by omega]

theorem exists_foldlM_range {count : ℕ}
    (hstep : ∀ k s, k < count → I k s → ∃ t, f s k = .ok t ∧ I (k + 1) t) {s : σ} (hs : I 0 s) :
    ∃ t, (List.range count).foldlM f s = .ok t ∧ I count t := by
  rw [List.range_eq_range']
  obtain ⟨t, ht, hend⟩ := @exists_foldlM_range' σ ε f I 0 count
    (fun k s _ hlt => hstep k s (by omega)) s hs
  exact ⟨t, ht, by rwa [Nat.zero_add] at hend⟩

end Loop

section Least

variable {α : Type u} {β : Type w}

theorem filter_concat (p : α → Prop) [DecidablePred p] (l : List α) (x : α) :
    (l ++ [x]).filter p = if p x then l.filter p ++ [x] else l.filter p := by
  rw [List.filter_append, List.filter_cons, List.filter_nil]
  simp only [decide_eq_true_eq]
  split_ifs
  · rfl
  · exact List.append_nil _

theorem argmin_filter_le [LinearOrder β] (f : α → β) (bound : β) (l : List α) :
    (l.filter fun x => f x ≤ bound).argmin f = (l.argmin f).filter fun x => f x ≤ bound := by
  induction l using List.reverseRecOn with
  | nil => rfl
  | append_singleton l x ih =>
    rw [filter_concat, List.argmin_concat]
    by_cases hx : f x ≤ bound
    · rw [if_pos hx, List.argmin_concat, ih]
      cases l.argmin f with
      | none => simp [Option.filter_some, hx]
      | some y =>
        by_cases hy : f y ≤ bound
        · by_cases hlt : f x < f y <;> simp [Option.filter_some, hx, hy, hlt]
        · have hlt : f x < f y := hx.trans_lt (not_le.mp hy)
          simp [Option.filter_some, hx, hy, hlt]
    · rw [if_neg hx, ih]
      cases l.argmin f with
      | none => simp [Option.filter_some, hx]
      | some y =>
        by_cases hlt : f x < f y
        · have hy : ¬ f y ≤ bound := fun hle => hx (hlt.le.trans hle)
          simp [Option.filter_some, hx, hy, hlt]
        · simp [hlt]

end Least

end Mockinx.Lib
