import Mathlib.Data.List.Infix

/-!
Splitting a list at a separator. One split is a prefix of another exactly when the second list is
the first one, or goes on with a separator after it.
-/

set_option autoImplicit false
set_option relaxedAutoImplicit false

namespace Mockinx.Lib.Split

universe u

variable {α : Type u}

private theorem intercalate_append (x : α) {l m : List (List α)} (hl : l ≠ []) (hm : m ≠ []) :
    [x].intercalate (l ++ m) = [x].intercalate l ++ x :: [x].intercalate m := by
  induction l with
  | nil => exact absurd rfl hl
  | cons w ws ih =>
    cases ws with
    | nil =>
      rw [List.singleton_append, List.intercalate_cons_of_ne_nil hm, List.intercalate_singleton]
      simp
    | cons v vs =>
      have hrest := ih (by simp)
      rw [List.cons_append, List.intercalate_cons_of_ne_nil (by simp), hrest,
        List.intercalate_cons_cons]
      simp

variable [BEq α] [LawfulBEq α]

theorem splitOn_isPrefix_iff (x : α) {a b : List α} :
    a.splitOn x <+: b.splitOn x ↔ b = a ∨ a ++ [x] <+: b := by
  constructor
  · rintro ⟨l, hl⟩
    have hb : b = [x].intercalate (a.splitOn x ++ l) := by
      rw [hl, List.intercalate_splitOn]
    by_cases hnil : l = []
    · left
      rw [hb, hnil, List.append_nil, List.intercalate_splitOn]
    · right
      rw [hb, intercalate_append x (List.splitOn_ne_nil x a) hnil, List.intercalate_splitOn]
      exact ⟨[x].intercalate l, by simp⟩
  · rintro (rfl | ⟨t, rfl⟩)
    · exact List.prefix_refl _
    · rw [List.append_assoc, List.singleton_append, List.splitOn_append_cons_self]
      exact List.prefix_append _ _

end Mockinx.Lib.Split
