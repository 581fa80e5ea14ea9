import Mathlib.Algebra.Order.Ring.Nat
import Mathlib.Data.List.Basic
import Mathlib.Tactic.SplitIfs

/-!
Iterators that may fail, and lists cut into pieces of one length. An iterator that hands out what is
left of a list, piece by piece, is drained in the pieces of the list.
-/

set_option autoImplicit false
set_option relaxedAutoImplicit false

namespace Mockinx.Lib

universe u v w

section Iterator

variable {σ : Type u} {α : Type v} {ε : Type w}

/-- Asked until it has no more items, or until it fails, the iterator hands out these items. -/
inductive Drains (next : σ → Except ε (Option α × σ)) : σ → List α → Option ε → Prop
  | done {s t : σ} (h : next s = .ok (none, t)) : Drains next s [] none
  | fails {s : σ} {e : ε} (h : next s = .error e) : Drains next s [] (some e)
  | yields {s t : σ} {a : α} {items : List α} {failure : Option ε} (h : next s = .ok (some a, t))
      (hrest : Drains next t items failure) : Drains next s (a :: items) failure

variable {next : σ → Except ε (Option α × σ)}

theorem Drains.unique {s : σ} {items items' : List α} {failure failure' : Option ε}
    (h : Drains next s items failure) (h' : Drains next s items' failure') :
    items = items' ∧ failure = failure' := by
  induction h generalizing items' failure' with
  | done h =>
    cases h' with
    | done => exact ⟨rfl, rfl⟩
    | fails h' => cases h.symm.trans h'
    | yields h' => cases h.symm.trans h'
  | fails h =>
    cases h' with
    | done h' => cases h.symm.trans h'
    | fails h' =>
      cases h.symm.trans h'
      exact ⟨rfl, rfl⟩
    | yields h' => cases h.symm.trans h'
  | yields h hrest ih =>
    cases h' with
    | done h' => cases h.symm.trans h'
    | fails h' => cases h.symm.trans h'
    | yields h' hrest' =>
      cases h.symm.trans h'
      obtain ⟨rfl, rfl⟩ := ih hrest'
      exact ⟨rfl, rfl⟩

theorem drains_iff_of_item {s t : σ} {a : α} (h : next s = .ok (some a, t)) {items : List α}
    {failure : Option ε} :
    Drains next s items failure ↔ ∃ rest, items = a :: rest ∧ Drains next t rest failure := by
  constructor
  · intro hdrains
    cases hdrains with
    | done h' => cases h.symm.trans h'
    | fails h' => cases h.symm.trans h'
    | yields h' hrest =>
      cases h.symm.trans h'
      exact ⟨_, rfl, hrest⟩
  · rintro ⟨rest, rfl, hrest⟩
    exact .yields h hrest

end Iterator

section Pieces

variable {α : Type u}

inductive Pieces (c : ℕ) : List α → List (List α) → Prop
  | nil : Pieces c [] []
  | cons {l : List α} {pieces : List (List α)} (hl : l ≠ []) (hrest : Pieces c (l.drop c) pieces) :
      Pieces c l (l.take c :: pieces)

namespace Pieces

variable {c : ℕ} {l : List α} {pieces : List (List α)}

theorem flatten_eq (h : Pieces c l pieces) : pieces.flatten = l := by
  induction h with
  | nil => rfl
  | cons _ _ ih => rw [List.flatten_cons, ih, List.take_append_drop]

theorem piece (hc : 0 < c) (h : Pieces c l pieces) :
    ∀ piece ∈ pieces, piece ≠ [] ∧ piece.length ≤ c := by
  induction h with
  | nil => simp
  | cons hl _ ih =>
    intro piece hpiece
    rcases List.mem_cons.mp hpiece with rfl | hpiece
    · refine ⟨fun hnil => ?_, by simp⟩
      rcases List.take_eq_nil_iff.mp hnil with hzero | hnil
      · omega
      · exact hl hnil
    · exact ih piece hpiece

theorem length_eq (h : Pieces c l pieces) {before after : List (List α)} {piece : List α}
    (hsplit : pieces = before ++ piece :: after) (hafter : after ≠ []) : piece.length = c := by
  induction h generalizing before with
  | nil => simp at hsplit
  | @cons l pieces hl hrest ih =>
    cases before with
    | nil =>
      obtain ⟨rfl, rfl⟩ := List.cons.inj hsplit
      have hmore : l.drop c ≠ [] := by
        intro hnil
        rw [hnil] at hrest
        cases hrest with
        | nil => exact hafter rfl
        | cons hl' => exact hl' rfl
      rw [ne_eq, List.drop_eq_nil_iff] at hmore
      rw [List.length_take]
      omega
    | cons first before => exact ih (List.cons.inj hsplit).2

theorem count (hc : 0 < c) (h : Pieces c l pieces) : pieces.length = (l.length + c - 1) / c := by
  induction h with
  | nil =>
    simp only [List.length_nil, Nat.zero_add]
    exact (Nat.div_eq_of_lt (by omega)).symm
  | @cons l pieces hl hrest ih =>
    have hpos := List.length_pos_of_ne_nil hl
    rw [List.length_cons, ih, List.length_drop]
    rcases le_or_gt l.length c with hle | hlt
    · rw [Nat.sub_eq_zero_of_le hle, Nat.zero_add, Nat.div_eq_of_lt (by omega),
        show l.length + c - 1 = l.length - 1 + c by omega, Nat.add_div_right _ hc,
        Nat.div_eq_of_lt (by omega)]
    · rw [show l.length + c - 1 = l.length - c + c - 1 + c by omega, Nat.add_div_right _ hc]

end Pieces

theorem exists_drains_pieces {σ : Type v} {ε : Type w} {next : σ → Except ε (Option (List α) × σ)}
    {I : σ → Prop} (left : σ → List α) {c : ℕ} (hc : 0 < c)
    (hdone : ∀ s, I s → left s = [] → ∃ t, next s = .ok (none, t))
    (hnext : ∀ s, I s → left s ≠ [] →
      ∃ t, next s = .ok (some ((left s).take c), t) ∧ I t ∧ left t = (left s).drop c)
    {s : σ} (hs : I s) : ∃ pieces, Drains next s pieces none ∧ Pieces c (left s) pieces := by
  induction hn : (left s).length using Nat.strong_induction_on generalizing s with
  | _ n ih =>
    by_cases hleft : left s = []
    · obtain ⟨t, ht⟩ := hdone s hs hleft
      rw [hleft]
      exact ⟨[], .done ht, .nil⟩
    · obtain ⟨t, ht, hI, hrest⟩ := hnext s hs hleft
      have hpos := List.length_pos_of_ne_nil hleft
      have hshorter : (left t).length < n := by
        rw [hrest, List.length_drop]
        omega
      obtain ⟨pieces, hdrains, hpieces⟩ := ih _ hshorter hI rfl
      rw [hrest] at hpieces
      exact ⟨_, .yields ht hdrains, .cons hleft hpieces⟩

end Pieces

end Mockinx.Lib
