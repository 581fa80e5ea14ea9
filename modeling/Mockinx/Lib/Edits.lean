import Mathlib.Data.List.Basic
import Mathlib.Order.Bounds.Basic
import Mathlib.Order.MinMax
import Mathlib.Tactic.Common

/-!
Edit distance. Texts are related by single insertions, deletions and substitutions; a recursion over
two texts computes the least number of them that leads from one text to the other.
-/

set_option autoImplicit false
set_option relaxedAutoImplicit false

universe u

namespace Mockinx.Lib

section Edits

variable {α : Type u} {a b c : List α}

inductive Edit : List α → List α → Prop
  | insert (s t : List α) (x : α) : Edit (s ++ t) (s ++ x :: t)
  | delete (s t : List α) (x : α) : Edit (s ++ x :: t) (s ++ t)
  | substitute (s t : List α) (x y : α) : Edit (s ++ x :: t) (s ++ y :: t)

/-- So many edits, one after the other. -/
inductive Edits : ℕ → List α → List α → Prop
  | none (a : List α) : Edits 0 a a
  | step {n : ℕ} {a b c : List α} (hfirst : Edit a b) (hrest : Edits n b c) : Edits (n + 1) a c

namespace Edit

theorem symm (h : Edit a b) : Edit b a := by
  cases h with
  | insert s t x => exact .delete s t x
  | delete s t x => exact .insert s t x
  | substitute s t x y => exact .substitute s t y x

private theorem cons (x : α) (h : Edit a b) : Edit (x :: a) (x :: b) := by
  cases h with
  | insert s t y => exact .insert (x :: s) t y
  | delete s t y => exact .delete (x :: s) t y
  | substitute s t y z => exact .substitute (x :: s) t y z

private theorem reverse (h : Edit a b) : Edit a.reverse b.reverse := by
  cases h with
  | insert s t x => simpa using Edit.insert t.reverse s.reverse x
  | delete s t x => simpa using Edit.delete t.reverse s.reverse x
  | substitute s t x y => simpa using Edit.substitute t.reverse s.reverse x y

end Edit

namespace Edits

variable {m n : ℕ}

private theorem one (h : Edit a b) : Edits 1 a b := .step h (.none b)

private theorem trans (h : Edits m a b) (h' : Edits n b c) : Edits (m + n) a c := by
  induction h with
  | none a => rwa [Nat.zero_add]
  | step hfirst _ ih =>
    rw [Nat.succ_add]
    exact .step hfirst (ih h')

private theorem map {f : List α → List α} (hf : ∀ {a b}, Edit a b → Edit (f a) (f b))
    (h : Edits n a b) :
    Edits n (f a) (f b) := by
  induction h with
  | none a => exact .none (f a)
  | step hfirst _ ih => exact .step (hf hfirst) ih

theorem symm (h : Edits n a b) : Edits n b a := by
  induction h with
  | none a => exact .none a
  | step hfirst _ ih => exact ih.trans (.one hfirst.symm)

private theorem zero_iff : Edits 0 a b ↔ a = b := by
  constructor
  · intro h
    cases h
    rfl
  · rintro rfl
    exact .none a

private theorem of_nil (b : List α) : Edits b.length [] b := by
  induction b with
  | nil => exact .none []
  | cons y b ih => exact ih.trans (.one (.insert [] b y))

end Edits

end Edits

section Levenshtein

variable {α : Type u} [DecidableEq α]

/-- The distances of a text with one more element in front from the suffixes of another, given those
of the text itself. -/
def levenshteinRow (x : α) (length : ℕ) (rest : List α → ℕ) : List α → ℕ
  | [] => length + 1
  | y :: b => min (min (rest (y :: b) + 1) (levenshteinRow x length rest b + 1))
      (rest b + if x = y then 0 else 1)

def levenshtein : List α → List α → ℕ
  | [] => List.length
  | x :: a => levenshteinRow x a.length (levenshtein a)

variable {a b c : List α} {x y : α}

@[simp] theorem levenshtein_nil_left (b : List α) : levenshtein [] b = b.length := rfl

@[simp] theorem levenshtein_nil_right (a : List α) : levenshtein a [] = a.length := by
  cases a <;> rfl

private theorem levenshtein_cons_cons (x y : α) (a b : List α) :
    levenshtein (x :: a) (y :: b) =
      min (min (levenshtein a (y :: b) + 1) (levenshtein (x :: a) b + 1))
        (levenshtein a b + if x = y then 0 else 1) :=
  rfl

private theorem levenshtein_cons_left_le (x : α) (a b : List α) :
    levenshtein (x :: a) b ≤ levenshtein a b + 1 := by
  cases b with
  | nil => simp
  | cons y b =>
    rw [levenshtein_cons_cons]
    omega

private theorem levenshtein_cons_right_le (y : α) (a b : List α) :
    levenshtein a (y :: b) ≤ levenshtein a b + 1 := by
  cases a with
  | nil => simp
  | cons x a =>
    rw [levenshtein_cons_cons]
    omega

private theorem edits_levenshtein (a b : List α) : Edits (levenshtein a b) a b := by
  induction a generalizing b with
  | nil => exact .of_nil b
  | cons x a iha =>
    induction b with
    | nil =>
      have h := (Edits.of_nil (x :: a)).symm
      simpa using h
    | cons y b ihb =>
      have hdelete : Edits (levenshtein a (y :: b) + 1) (x :: a) (y :: b) :=
        .step (.delete [] a x) (iha (y :: b))
      have hinsert : Edits (levenshtein (x :: a) b + 1) (x :: a) (y :: b) :=
        ihb.trans (.one (.insert [] b y))
      have hsubstitute : Edits (levenshtein a b + if x = y then 0 else 1) (x :: a) (y :: b) := by
        have hrest := (iha b).map (Edit.cons x)
        by_cases hxy : x = y
        · rw [if_pos hxy, ← hxy]
          exact hrest
        · rw [if_neg hxy]
          exact hrest.trans (.one (.substitute [] b x y))
      rw [levenshtein_cons_cons]
      rcases min_choice (min (levenshtein a (y :: b) + 1) (levenshtein (x :: a) b + 1))
        (levenshtein a b + if x = y then 0 else 1) with hmin | hmin
      · rw [hmin]
        rcases min_choice (levenshtein a (y :: b) + 1) (levenshtein (x :: a) b + 1) with h | h
        · rwa [h]
        · rwa [h]
      · rwa [hmin]

private theorem levenshtein_self (a : List α) : levenshtein a a = 0 := by
  induction a with
  | nil => rfl
  | cons x a ih =>
    rw [levenshtein_cons_cons, ih]
    simp

private theorem levenshtein_le_cons_right (y : α) (a b : List α) :
    levenshtein a b ≤ levenshtein a (y :: b) + 1 := by
  induction a with
  | nil =>
    simp only [levenshtein_nil_left, List.length_cons]
    omega
  | cons x a ih =>
    have hdelete := levenshtein_cons_left_le x a b
    rw [levenshtein_cons_cons]
    omega

private theorem levenshtein_substitute_le (y z : α) (a b : List α) :
    levenshtein a (z :: b) ≤ levenshtein a (y :: b) + 1 := by
  induction a with
  | nil => simp
  | cons x a ih =>
    rw [levenshtein_cons_cons, levenshtein_cons_cons]
    split_ifs <;> omega

private theorem levenshtein_cons_le_cons (y : α) (h : ∀ a, levenshtein a c ≤ levenshtein a b + 1)
    (a : List α) : levenshtein a (y :: c) ≤ levenshtein a (y :: b) + 1 := by
  induction a with
  | nil =>
    have hnil := h []
    simp only [levenshtein_nil_left, List.length_cons] at hnil ⊢
    omega
  | cons x a ih =>
    have hkeep := h a
    have hmore := h (x :: a)
    rw [levenshtein_cons_cons, levenshtein_cons_cons]
    omega

private theorem levenshtein_le_of_edit (h : Edit b c) (a : List α) :
    levenshtein a c ≤ levenshtein a b + 1 := by
  have happend : ∀ (s : List α) {t t' : List α},
      (∀ a, levenshtein a t' ≤ levenshtein a t + 1) →
      ∀ a, levenshtein a (s ++ t') ≤ levenshtein a (s ++ t) + 1 := by
    intro s t t' ht
    induction s with
    | nil => exact ht
    | cons y s ih => exact levenshtein_cons_le_cons y ih
  cases h with
  | insert s t x => exact happend s (fun a => levenshtein_cons_right_le x a t) a
  | delete s t x => exact happend s (fun a => levenshtein_le_cons_right x a t) a
  | substitute s t x y => exact happend s (fun a => levenshtein_substitute_le x y a t) a

private theorem levenshtein_le_add_of_edits {n : ℕ} (h : Edits n b c) (a : List α) :
    levenshtein a c ≤ levenshtein a b + n := by
  induction h with
  | none b => exact Nat.le_refl _
  | step hfirst _ ih =>
    have hedit := levenshtein_le_of_edit hfirst a
    omega

theorem isLeast_levenshtein (a b : List α) : IsLeast {n | Edits n a b} (levenshtein a b) := by
  refine ⟨edits_levenshtein a b, fun n h => ?_⟩
  have hle := levenshtein_le_add_of_edits h a
  rwa [levenshtein_self, Nat.zero_add] at hle

private theorem levenshtein_le_of_edits {n : ℕ} (h : Edits n a b) : levenshtein a b ≤ n :=
  (isLeast_levenshtein a b).2 h

theorem levenshtein_eq_zero_iff : levenshtein a b = 0 ↔ a = b := by
  constructor
  · intro h
    have hedits := edits_levenshtein a b
    rw [h] at hedits
    exact Edits.zero_iff.mp hedits
  · rintro rfl
    exact levenshtein_self a

theorem levenshtein_comm (a b : List α) : levenshtein a b = levenshtein b a :=
  le_antisymm (levenshtein_le_of_edits (edits_levenshtein b a).symm)
    (levenshtein_le_of_edits (edits_levenshtein a b).symm)

theorem levenshtein_triangle (a b c : List α) :
    levenshtein a c ≤ levenshtein a b + levenshtein b c :=
  levenshtein_le_of_edits ((edits_levenshtein a b).trans (edits_levenshtein b c))

private theorem levenshtein_reverse_le (a b : List α) :
    levenshtein a.reverse b.reverse ≤ levenshtein a b :=
  levenshtein_le_of_edits ((edits_levenshtein a b).map Edit.reverse)

private theorem levenshtein_reverse (a b : List α) :
    levenshtein a.reverse b.reverse = levenshtein a b := by
  refine le_antisymm (levenshtein_reverse_le a b) ?_
  have h := levenshtein_reverse_le a.reverse b.reverse
  rwa [List.reverse_reverse, List.reverse_reverse] at h

theorem levenshtein_concat_concat (x y : α) (a b : List α) :
    levenshtein (a ++ [x]) (b ++ [y]) =
      min (min (levenshtein a (b ++ [y]) + 1) (levenshtein (a ++ [x]) b + 1))
        (levenshtein a b + if x = y then 0 else 1) := by
  have hconcat : ∀ (z : α) (l : List α), (l ++ [z]).reverse = z :: l.reverse := by simp
  rw [← levenshtein_reverse (a ++ [x]) (b ++ [y]), ← levenshtein_reverse a (b ++ [y]),
    ← levenshtein_reverse (a ++ [x]) b, ← levenshtein_reverse a b, hconcat, hconcat,
    levenshtein_cons_cons]

end Levenshtein

end Mockinx.Lib
